import Sumi.Proofs.Machine.Calling

namespace Sumi.Machine

open Library Value Text.Compatibility

variable {coll x : Value} {items xs : List Value} {env : Locals} {id depth : Nat}

structure Routine where
  name : String
  params : List String
  body : Code

def Routine.rule (r : Routine) : Rule :=
  .recursive r.name (Code.munge r.name) r.params none r.body []

def Routine.code (ns : String) (r : Routine) : Code :=
  .define ns r.name (.recursive r.name (Code.munge r.name) r.params none r.body)

def sequenceName : String := "sumi.seq"

def summing : Routine where
  name := "sum"
  params := ["coll"]
  body := libraryCall .reduce [.var Namespace.core "_PLUS_", .int 0, .bound "coll"]

def mean : Routine where
  name := "mean"
  params := ["coll"]
  body := .cond (libraryCall .isEmpty [.bound "coll"]) .nil
    (libraryCall .div
      [.call (.var sequenceName "sum") [.bound "coll"], libraryCall .count [.bound "coll"]])

def folding (name : String) (params : List String) (round start : Code) : Routine where
  name := name
  params := ["coll"]
  body := libraryCall .reduce [.lambda params none round, start, .bound "coll"]

def raise : Code :=
  libraryCall .assoc [.bound "m", .bound "x",
    libraryCall .inc [libraryCall .get [.bound "m", .bound "x", .int 0]]]

def frequencies : Routine := folding "frequencies" ["m", "x"] raise (.map [])

def known : Code :=
  libraryCall .anyOf [.lambda ["y"] none (libraryCall .eq [.bound "x", .bound "y"]), .bound "acc"]

def keep : Code := .cond known (.bound "acc") (libraryCall .conj [.bound "acc", .bound "x"])

def distinctItems : Routine := folding "distinct-items" ["acc", "x"] keep (.vector [])

def stock : List Builtin := [.reduce, .assoc, .inc, .get, .anyOf, .eq, .conj]

theorem gives_inc (n : Int) : Gives .inc [.int n] (.int (n + 1)) := fun _ _ => rfl

theorem gives_conj_vector (xs : List Value) (x : Value) :
    Gives .conj [.vector xs, x] (.vector (xs ++ [x])) := fun _ _ => rfl

section Round

variable (hc : Clear env) (hxs : ∀ y ∈ xs, y.Item) (hx : x.Item)
include hc hxs hx

theorem comesTo_raise :
    ComesTo stock (apply (depth + 2) (.fn id (.lambda ["m", "x"] none raise env))
      [.map (tally xs), x]) (.map (tally (xs ++ [x]))) := by
  have hfound := (tally_tallies hxs).found x hx
  have hget : Gives .get [.map (tally xs), x, .int 0] (.int (xs.countP (equals x))) := by
    rw [← hfound]
    exact gives_lookUp _ hx.isKey
  have hlocals : bindParams ["m", "x"] none [.map (tally xs), x] =
      some [("m", .map (tally xs)), ("x", x)] := rfl
  have hc : Clear (("m", .map (tally xs)) :: ("x", x) :: env) :=
    (hc.cons (by decide)).cons (by decide)
  rw [tally_append, hfound]
  apply comesTo_lambda hlocals
  refine comesTo_libraryCall hc (by decide) (comesTo_evalAll (.cons (comesTo_bound rfl)
    (.cons (comesTo_bound rfl) (.cons ?raised .nil)))) ((gives_assoc_one hx.isKey).comesTo depth)
  refine comesTo_libraryCall hc (by decide) (comesTo_evalAll (.cons ?found .nil))
    ((gives_inc _).comesTo depth)
  exact comesTo_libraryCall hc (by decide) (comesTo_evalAll (.cons (comesTo_bound rfl)
    (.cons (comesTo_bound rfl) (.cons (comesTo_pure _) .nil)))) (hget.comesTo depth)

/-- An item is known when an item before it is equal: of those that are equal, one was kept. -/
theorem comesTo_known :
    ComesTo stock (eval (apply (depth + 3))
      (("acc", .vector (firstSeen xs)) :: ("x", x) :: env) known)
      (if xs.any (equals x) then .bool true else .nil) := by
  rw [← any_firstSeen hxs hx]
  have hc : Clear (("acc", .vector (firstSeen xs)) :: ("x", x) :: env) :=
    (hc.cons (by decide)).cons (by decide)
  refine comesTo_libraryCall_lambda hc (by decide) (comesTo_evalAll (.cons (comesTo_bound rfl) .nil))
    fun id => comesTo_anyOf fun y hy => ?_
  have hy := (hxs y (mem_of_mem_firstSeen hy)).regular
  have hlocals : bindParams ["y"] none [y] = some [("y", y)] := rfl
  have hc : Clear (("y", y) :: ("acc", .vector (firstSeen xs)) :: ("x", x) :: env) :=
    hc.cons (by decide)
  apply comesTo_lambda hlocals
  exact comesTo_libraryCall hc (by decide)
    (comesTo_evalAll (.cons (comesTo_bound rfl) (.cons (comesTo_bound rfl) .nil)))
    ((gives_eq hx.regular hy).comesTo depth)

theorem comesTo_keep :
    ComesTo stock (apply (depth + 4) (.fn id (.lambda ["acc", "x"] none keep env))
      [.vector (firstSeen xs), x]) (.vector (firstSeen (xs ++ [x]))) := by
  have hknown : ComesTo stock (eval (apply (depth + 3))
      (("acc", .vector (firstSeen xs)) :: ("x", x) :: env) known) _ := comesTo_known hc hxs hx
  have hlocals : bindParams ["acc", "x"] none [.vector (firstSeen xs), x] =
      some [("acc", .vector (firstSeen xs)), ("x", x)] := rfl
  have hc : Clear (("acc", .vector (firstSeen xs)) :: ("x", x) :: env) :=
    (hc.cons (by decide)).cons (by decide)
  apply comesTo_lambda hlocals
  rw [firstSeen_append]
  cases hany : xs.any (equals x) <;> rw [hany] at hknown
  · refine comesTo_cond hc hknown nofun fun _ => ?_
    exact comesTo_libraryCall hc (by decide)
      (comesTo_evalAll (.cons (comesTo_bound rfl) (.cons (comesTo_bound rfl) .nil)))
      ((gives_conj_vector _ x).comesTo _)
  · exact comesTo_cond hc hknown (fun _ => comesTo_bound rfl) nofun

end Round

section Items

variable (hcoll : coll.sequence? = some items) (hitems : ∀ x ∈ items, x.Item)
include hcoll hitems

theorem comesTo_folding {ops : List Builtin} {name : String} {params : List String}
    {round start : Code} (state : List Value → Value) (hop : .reduce ∈ ops)
    (hself : normalize (Code.munge name) ∉ Code.helpers)
    (hstart : ∀ call env, ComesTo ops (eval call env start) (state []))
    (hround : ∀ xs x, (∀ y ∈ xs, y.Item) → x.Item → ∀ id env, Clear env →
      ComesTo ops (apply depth (.fn id (.lambda params none round env)) [state xs, x])
        (state (xs ++ [x]))) :
    ComesTo ops (apply (depth + 2) (.fn id (folding name params round start).rule) [coll])
      (state items) := by
  have hlocals : bindParams ["coll"] none [coll] = some [("coll", coll)] := rfl
  apply comesTo_recursive hlocals
  intro this
  have hc : Clear [("coll", coll), (normalize (Code.munge name), this)] :=
    (clear_nil.cons hself).cons (by decide)
  refine comesTo_libraryCall_lambda hc hop
    (comesTo_evalAll (.cons (hstart _ _) (.cons (comesTo_bound rfl) .nil))) fun id => ?_
  apply comesTo_reduce hcoll
  apply comesTo_foldOver
  intro xs x hmem
  rw [List.forall_mem_append, List.forall_mem_singleton] at hmem
  exact hround xs x (fun y hy => hitems y (hmem.1 y hy)) (hitems x hmem.2) id _ hc

theorem comesTo_frequencies :
    ComesTo stock (apply (depth + 6) (.fn id frequencies.rule) [coll]) (.map (tally items)) :=
  comesTo_folding hcoll hitems (fun xs => .map (tally xs)) (by decide) (by decide +kernel)
    (fun _ _ => comesTo_pure _) fun _ _ hxs hx _ _ hc => comesTo_raise hc hxs hx

theorem comesTo_distinctItems :
    ComesTo stock (apply (depth + 6) (.fn id distinctItems.rule) [coll])
      (.vector (firstSeen items)) :=
  comesTo_folding hcoll hitems (fun xs => .vector (firstSeen xs)) (by decide) (by decide +kernel)
    (fun _ _ => comesTo_pure _) fun _ _ hxs hx _ _ hc => comesTo_keep hc hxs hx

end Items

/-- The map counts the collection: its keys are the items that none before them is equal to, under
each stands how many items are equal to it, and the counts add up to the size. -/
structure Counts (coll : Value) (items : List Value) (t : Table Value Value) : Prop where
  keys : t.keys = firstSeen items
  value : ∀ e ∈ t, e.2 = .int (items.countP (equals e.1))
  found : ∀ k : Value, k.Item → Gives .get [.map t, k, .int 0] (.int (items.countP (equals k)))
  total : ∃ n, Gives .add t.values n ∧ Gives .count [coll] n

theorem gives_count_sequence (hcoll : coll.sequence? = some items) :
    Gives .count [coll] (.int items.length) := by
  intro depth m
  cases coll <;> cases hcoll <;> rfl

theorem tally_counts (hcoll : coll.sequence? = some items) (hitems : ∀ x ∈ items, x.Item) :
    Counts coll items (tally items) where
  keys := (tally_tallies hitems).keys
  value _ he := (tally_tallies hitems).value hitems he
  found k hk := by
    rw [← (tally_tallies hitems).found k hk]
    exact gives_lookUp _ hk.isKey
  total := ⟨_, (tally_tallies hitems).gives_add hitems, gives_count_sequence hcoll⟩

end Sumi.Machine

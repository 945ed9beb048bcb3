
namespace Sumi

/-- The name of a symbol or a keyword, perhaps qualified by a namespace. -/
structure Name where
  ns : Option String
  name : String
  deriving DecidableEq, Repr, Inhabited

namespace Name

def plain (name : String) : Name := ⟨none, name⟩

def qualified (ns name : String) : Name := ⟨some ns, name⟩

def split (s : String) : Name :=
  match s.toList.span (· != '/') with
  | (ns, _ :: name) => ⟨some (String.ofList ns), String.ofList name⟩
  | (_, []) => ⟨none, s⟩

/-- The name of a symbol. A lone slash is a name of its own. -/
def ofSymbol (s : String) : Name := if s = "/" then plain s else split s

def text (n : Name) : String :=
  match n.ns with
  | none => n.name
  | some ns => if ns.isEmpty then n.name else ns ++ "/" ++ n.name

end Name

inductive Form
  | nil
  | bool (b : Bool)
  | int (n : Int)
  | float (x : Float)
  | str (s : String)
  | symbol (n : Name)
  | keyword (n : Name)
  | list (items : List Form) (line : Option Nat)
  | vector (items : List Form) (line : Option Nat)
  | map (items : List Form) (line : Option Nat)
  deriving Inhabited

namespace Form

/-- What holds of a compound as soon as it holds of its items, holds of every form. -/
@[elab_as_elim]
theorem byItems {P : Form → Prop} (nil : P .nil) (bool : ∀ b, P (.bool b)) (int : ∀ n, P (.int n))
    (float : ∀ x, P (.float x)) (str : ∀ s, P (.str s)) (symbol : ∀ n, P (.symbol n))
    (keyword : ∀ n, P (.keyword n))
    (list : ∀ items line, (∀ f ∈ items, P f) → P (.list items line))
    (vector : ∀ items line, (∀ f ∈ items, P f) → P (.vector items line))
    (map : ∀ items line, (∀ f ∈ items, P f) → P (.map items line)) : ∀ f, P f :=
  @Form.rec P (fun fs => ∀ f ∈ fs, P f) nil bool int float str symbol keyword list vector map nofun
    fun _ _ first rest => List.forall_mem_cons.mpr ⟨first, rest⟩

def line? : Form → Option Nat
  | .list _ line | .vector _ line | .map _ line => line
  | _ => none

def sym (name : String) : Form := .symbol (.plain name)

def isSymbol (name : String) : Form → Bool
  | .symbol n => n == .plain name
  | _ => false

def pairs {α : Type} : List α → List (α × α)
  | a :: b :: rest => (a, b) :: pairs rest
  | _ => []

def isNs : Form → Bool
  | .list (head :: _) _ => head.isSymbol "ns"
  | _ => false

def unquote : Form → Form
  | .list [head, x] line => if head.isSymbol "quote" then x else .list [head, x] line
  | form => form

end Form

end Sumi

import Sumi.Host.Local
import Sumi.Proofs.Project.Compile
import Sumi.Proofs.Project.Url

namespace Sumi.Project

namespace Path

def place (cwd p : String) : List String := (follow true [] (parts (join cwd p))).reverse

def IsName (part : String) : Prop := part ≠ "" ∧ part ≠ "." ∧ part ≠ ".."

theorem follow_then (absolute : Bool) (done ps qs : List String) :
    follow absolute done (ps ++ qs) = follow absolute (follow absolute done ps) qs := by
  induction ps generalizing done with
  | nil => rfl
  | cons part ps ih =>
      rw [List.cons_append, follow.eq_def, follow.eq_def _ _ (part :: ps)]
      dsimp only
      split
      · exact ih _
      · split
        · cases done <;> exact ih _
        · exact ih _

theorem follow_blanks {absolute : Bool} {done ps : List String} (h : ∀ part ∈ ps, part = "") :
    follow absolute done ps = done := by
  induction ps with
  | nil => rfl
  | cons part ps ih =>
      rw [follow.eq_def]
      dsimp only
      rw [if_pos (.inl (h part List.mem_cons_self))]
      exact ih fun q hq => h q (List.mem_cons_of_mem _ hq)

theorem follow_names {absolute : Bool} {done ps : List String} (h : ∀ part ∈ ps, IsName part) :
    follow absolute done ps = ps.reverse ++ done := by
  induction ps generalizing done with
  | nil => rfl
  | cons part ps ih =>
      obtain ⟨h₁, h₂, h₃⟩ := h part List.mem_cons_self
      rw [follow.eq_def]
      dsimp only
      rw [if_neg (by simp [h₁, h₂]), if_neg h₃, ih fun q hq => h q (List.mem_cons_of_mem _ hq)]
      simp

theorem mem_follow {done ps : List String} {part : String} (h : part ∈ follow true done ps) :
    part ∈ done ∨ part ∈ ps ∧ IsName part := by
  induction ps generalizing done with
  | nil => exact .inl h
  | cons q ps ih =>
      have hmore {r : String} (hr : r ∈ ps ∧ IsName r) : r ∈ q :: ps ∧ IsName r :=
        ⟨List.mem_cons_of_mem _ hr.1, hr.2⟩
      rw [follow.eq_def] at h
      dsimp only at h
      split at h
      · exact (ih h).imp_right hmore
      · next hs =>
        split at h
        · cases done with
          | nil => exact (ih h).imp_right hmore
          | cons last up =>
              dsimp only at h
              split at h
              · next hl =>
                rcases ih h with hd | hd
                · rcases List.mem_cons.mp hd with rfl | hd
                  · exact .inl (by rw [hl]; exact List.mem_cons_self)
                  · exact .inl hd
                · exact .inr (hmore hd)
              · exact (ih h).imp (List.mem_cons_of_mem _) hmore
        · next hu =>
          rcases ih h with hd | hd
          · rcases List.mem_cons.mp hd with rfl | hd
            · exact .inr ⟨List.mem_cons_self, fun he => hs (.inl he), fun he => hs (.inr he), hu⟩
            · exact .inl hd
          · exact .inr (hmore hd)

theorem slash_not_mem_part {p part : String} (h : part ∈ parts p) : '/' ∉ part.toList := by
  obtain ⟨l, hl, rfl⟩ := List.mem_map.mp h
  rw [String.toList_ofList]
  exact (piece_of_mem_splitOn hl).1

theorem parts_intercalate {ps : List String} (hne : ps ≠ []) (h : ∀ part ∈ ps, '/' ∉ part.toList) :
    parts ("/".intercalate ps) = ps := by
  have hslash : "/".toList = ['/'] := rfl
  rw [parts, String.toList_intercalate, hslash, List.splitOn_intercalate]
  · simp
  · intro l hl
    obtain ⟨part, hp, rfl⟩ := List.mem_map.mp hl
    exact h part hp
  · simpa using hne

theorem parts_slash (p : String) : parts ("/" ++ p) = "" :: parts p := by
  have h := parts_append_slash "" p
  rwa [String.empty_append] at h

theorem isAbsolute_join {cwd : String} (h : isAbsolute cwd = true) (p : String) :
    isAbsolute (join cwd p) = true := by
  have hne : cwd ≠ "" := by
    rintro rfl
    cases h
  cases hp : isAbsolute p with
  | true => rwa [join_of_absolute hp]
  | false => rwa [join_of_relative hp hne, String.append_assoc, isAbsolute_append hne]

/-- An absolute form begins with the root, and then leads down. -/
theorem parts_normal {p : String} (h : isAbsolute p = true) :
    isAbsolute (normal p) = true ∧ ∃ front, (∀ part ∈ front, part = "") ∧
      parts (normal p) = front ++ (follow true [] (parts p)).reverse := by
  have hslashes : (p.toList.takeWhile (· == '/')).length ≠ 0 := by
    obtain ⟨cs, hp⟩ := List.isPrefixOf_iff_prefix.mp h
    rw [← hp]
    simp
  -- two slashes at the head of a path stay two, and any other number becomes one
  obtain ⟨root, hroot, hnormal⟩ : ∃ root, (root = "/" ∨ root = "//") ∧
      normal p = root ++ "/".intercalate (follow true [] (parts p)).reverse := by
    have hpos : decide (0 < (p.toList.takeWhile (· == '/')).length) = true :=
      decide_eq_true (Nat.pos_of_ne_zero hslashes)
    refine ⟨if (p.toList.takeWhile (· == '/')).length = 2 then "//" else "/", ?_, ?_⟩
    · split <;> simp
    · unfold normal
      dsimp only
      rw [if_neg hslashes, hpos, if_neg]
      split <;> simp
  have hslash : ∀ part ∈ (follow true [] (parts p)).reverse, '/' ∉ part.toList := by
    intro part hp
    rcases mem_follow (List.mem_reverse.mp hp) with hp | ⟨hp, -⟩
    · cases hp
    · exact slash_not_mem_part hp
  obtain ⟨front, hfront, hline⟩ : ∃ front : List String, (∀ part ∈ front, part = "") ∧
      parts ("/".intercalate (follow true [] (parts p)).reverse) =
        front ++ (follow true [] (parts p)).reverse := by
    by_cases hnil : (follow true [] (parts p)).reverse = []
    · rw [hnil]
      exact ⟨[""], by simp, rfl⟩
    · exact ⟨[], by simp, parts_intercalate hnil hslash⟩
  have htwo : "//" = "/" ++ "/" := rfl
  rw [hnormal]
  rcases hroot with rfl | rfl
  · refine ⟨isAbsolute_append (by simp) _, "" :: front, List.forall_mem_cons.mpr ⟨rfl, hfront⟩, ?_⟩
    rw [parts_slash, hline]
    rfl
  · refine ⟨isAbsolute_append (by simp) _, "" :: "" :: front,
      List.forall_mem_cons.mpr ⟨rfl, List.forall_mem_cons.mpr ⟨rfl, hfront⟩⟩, ?_⟩
    rw [htwo, String.append_assoc, parts_slash, parts_slash, hline]
    rfl

variable {cwd : String}

theorem isAbsolute_absolute (h : isAbsolute cwd = true) (p : String) :
    isAbsolute (absolute cwd p) = true :=
  (parts_normal (isAbsolute_join h p)).1

theorem up_not_mem_absolute (h : isAbsolute cwd = true) (p : String) :
    ".." ∉ parts (absolute cwd p) := by
  obtain ⟨-, front, hfront, hp⟩ := parts_normal (isAbsolute_join h p)
  rw [absolute, hp]
  intro hm
  rcases List.mem_append.mp hm with hm | hm
  · exact absurd (hfront ".." hm) (by decide)
  · rcases mem_follow (List.mem_reverse.mp hm) with hm | ⟨-, -, -, hn⟩
    · cases hm
    · exact hn rfl

/-- A path and its absolute form have the same place. -/
theorem place_absolute (h : isAbsolute cwd = true) (p cwd' : String) :
    place cwd' (absolute cwd p) = place cwd p := by
  have hjoin : join cwd' (absolute cwd p) = absolute cwd p :=
    join_of_absolute (isAbsolute_absolute h p)
  obtain ⟨-, front, hfront, hp⟩ := parts_normal (isAbsolute_join h p)
  have hnames : ∀ part ∈ (follow true [] (parts (join cwd p))).reverse, IsName part := by
    intro part hm
    rcases mem_follow (List.mem_reverse.mp hm) with hm | ⟨-, hn⟩
    · cases hm
    · exact hn
  rw [place, hjoin, absolute, hp, follow_then, follow_blanks hfront, follow_names hnames]
  simp [place]

theorem place_join (h : isAbsolute cwd = true) {base p : String} (hp : isAbsolute p = false)
    (hn : ∀ part ∈ parts p, IsName part) : place cwd (join base p) = place cwd base ++ parts p := by
  have hdown (ps : List String) :
      (follow true [] (ps ++ parts p)).reverse = (follow true [] ps).reverse ++ parts p := by
    rw [follow_then, follow_names hn]
    simp
  have hne : join cwd base ≠ "" := by
    intro he
    have := isAbsolute_join h base
    rw [he] at this
    cases this
  unfold place
  rw [join_assoc]
  rcases parts_join (join cwd base) p with ⟨-, ha | he⟩ | hj | ⟨up, hb, hj⟩
  · rw [hp] at ha
    cases ha
  · exact absurd he hne
  · rw [hj, hdown]
  · have hblank : ∀ part ∈ [""], part = "" := by simp
    rw [hj, hdown, hb, follow_then, follow_blanks hblank]

end Path

open Sumi.Project.Path

namespace Files

variable {f : Files}

/-- A walk never leads away from the place that the names tell. -/
theorem walk_place {done ps q : List String} (hd : ".." ∉ done)
    (h : f.walk done.reverse ps = .ok q) : q = (follow true done ps).reverse := by
  -- `done` is the place so far, the last part first, as `follow` has it
  induction ps generalizing done with
  | nil => exact (Except.ok.inj h).symm
  | cons part ps ih =>
      rw [walk] at h
      rw [follow.eq_def]
      dsimp only
      split at h
      · cases h
      · cases h
      · split at h
        · next hs =>
          rw [if_pos hs]
          exact ih hd h
        · next hs =>
          rw [if_neg hs]
          split at h
          · next hu =>
            rw [if_pos hu]
            cases done with
            | nil => exact ih hd h
            | cons last up =>
                obtain ⟨hlast, hup⟩ := not_or.mp (mt List.mem_cons.mpr hd)
                rw [List.reverse_cons, List.dropLast_concat] at h
                dsimp only
                rw [if_neg (Ne.symm hlast)]
                exact ih hup h
          · next hu =>
            rw [if_neg hu]
            split at h
            · cases h
            · rw [← List.reverse_cons] at h
              exact ih (fun hm => (List.mem_cons.mp hm).elim (fun he => hu he.symm) hd) h

theorem locate_place {p : String} {q : List String} (h : f.locate p = .ok q) :
    q = place f.cwd p :=
  walk_place (by simp) (locate_ok_iff.mp h).2

theorem find?_place {p : String} {e : Entry} (h : f.find? p = some e) :
    f.entry? (place f.cwd p) = some e := by
  obtain ⟨q, hq, he⟩ := find?_eq_some.mp h
  rwa [locate_place hq] at he

end Files

open Files Work

theorem leads_readUrl {w : Workspace} {p : String} (h : isAbsolute p = true) :
    Leads (readUrl (Url.ofPath p)) w
      (fun content w' => ∃ raw, w.files.read p = .ok raw ∧ content = raw.receive ∧ w = w')
      (fun e w' => e = .project (.noFile p) ∧ (∀ raw, w.files.read p ≠ .ok raw) ∧ w = w') := by
  unfold readUrl
  rw [Url.read_ofPath h]
  dsimp only
  apply leads_bind.mpr
  apply leads_get.mpr
  split
  · next hno =>
    apply leads_bind.mpr
    refine leads_throw.mpr ⟨rfl, fun raw hr => ?_, rfl⟩
    obtain ⟨time, hfind⟩ := read_ok_iff.mp hr
    simp [isFile, hfind] at hno
  · next hfile =>
    obtain ⟨raw, hraw⟩ : ∃ raw, w.files.read p = .ok raw := by
      cases hfind : w.files.find? p with
      | none => simp [isFile, hfind] at hfile
      | some e =>
          cases e with
          | directory => simp [isFile, hfind] at hfile
          | file raw time => exact ⟨raw, read_ok_iff.mpr ⟨time, hfind⟩⟩
    apply leads_ofFiles.bind
    · rintro content _ ⟨hc, rfl⟩
      exact leads_pure.mpr ⟨content, hc, rfl, rfl⟩
    · rintro e _ ⟨hn, -⟩
      exact absurd hraw (hn raw)

theorem fetch_place {f : Files} {cwd p : String} (h : isAbsolute cwd = true) {content : Content}
    (hf : Host.fetch f (Url.ofPath (absolute cwd p)) = .ok content) :
    ∃ raw time, f.entry? (place cwd p) = some (.file raw time) ∧ content = raw.receive := by
  have hread := leads_readUrl (w := { files := f, analyzer := { namespaces := [] }, library := "" })
    (isAbsolute_absolute h p)
  rw [leads_iff] at hread
  unfold Host.fetch at hf
  rcases hrun : (readUrl (Url.ofPath (absolute cwd p))).run.run
    { files := f, analyzer := { namespaces := [] }, library := "" } with ⟨e | c, w⟩
  · rw [run_apply, hrun] at hf
    cases hf
  · rw [run_apply, hrun] at hf
    cases hf
    rw [hrun] at hread
    obtain ⟨raw, hr, rfl, -⟩ := hread
    obtain ⟨time, hfind⟩ := read_ok_iff.mp hr
    have hentry := find?_place hfind
    rw [place_absolute h] at hentry
    exact ⟨raw, time, hentry, rfl⟩

end Sumi.Project

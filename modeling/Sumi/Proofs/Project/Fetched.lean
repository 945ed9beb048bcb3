import Sumi.Proofs.Project.LoadOrder
import Sumi.Proofs.Project.Onward

namespace Sumi.Text.Lines

theorem unify_of_ne {c : Char} (h : c ≠ '\r') (cs : List Char) : unify (c :: cs) = c :: unify cs := by
  rw [unify]
  · exact fun _ hc _ => h hc
  · exact h

theorem return_not_mem_unify (cs : List Char) : '\r' ∉ unify cs := by
  induction cs using unify.induct with
  | case1 cs ih | case2 cs _ ih => simpa [unify] using ih
  | case3 c cs _ hc ih =>
      rw [unify_of_ne hc]
      exact fun h => (List.mem_cons.mp h).elim (fun he => hc he.symm) ih
  | case4 => exact List.not_mem_nil

theorem unify_of_not_mem {cs : List Char} (h : '\r' ∉ cs) : unify cs = cs := by
  induction cs with
  | nil => rfl
  | cons c cs ih =>
      obtain ⟨hc, hcs⟩ := not_or.mp (mt List.mem_cons.mpr h)
      rw [unify_of_ne (Ne.symm hc), ih hcs]

theorem unify_unify (cs : List Char) : unify (unify cs) = unify cs :=
  unify_of_not_mem (return_not_mem_unify cs)

end Sumi.Text.Lines

namespace Sumi.Project

open Sumi.Project.Path Text

theorem Content.toText_receive (c : Content) :
    c.receive.toText = String.ofList (Lines.unify c.toText.toList) := by
  cases c with
  | text s | module m => rfl
  | received m => simp [receive, toText, Lines.unify_unify]

namespace Files

variable {f : Files}

theorem Rooted.over (h : f.Rooted) {up more : List String} (hne : more ≠ [])
    (he : f.entry? (up ++ more) ≠ none) : f.entry? up = some .directory := by
  rw [← List.dropLast_concat_getLast hne, ← List.append_assoc] at he
  exact h.above more.dropLast (h _ _ he)

theorem walk_blanks {ps : List String} (h : ∀ part ∈ ps, part = "") : f.walk [] ps = .ok [] := by
  induction ps with
  | nil => rfl
  | cons part ps ih =>
      rw [walk, entry_nil, if_pos (.inl (h part List.mem_cons_self))]
      exact ih fun q hq => h q (List.mem_cons_of_mem _ hq)

theorem walk_names (hf : f.Rooted) {place ps : List String} (h : ∀ part ∈ ps, IsName part)
    (hshort : ∀ part ∈ ps, isLong part = false) (he : f.entry? (place ++ ps) ≠ none) :
    f.walk place ps = .ok (place ++ ps) := by
  induction ps generalizing place with
  | nil => rw [walk, List.append_nil]
  | cons part ps ih =>
      have hname := h part List.mem_cons_self
      have hup := hf.over (List.cons_ne_nil part ps) he
      have hstep : f.walk place [part] = .ok (place ++ [part]) :=
        (walk_name hname).mpr ⟨hup, hshort part List.mem_cons_self, rfl⟩
      rw [List.append_cons] at he ⊢
      rw [← List.singleton_append, walk_append, hstep]
      exact ih (fun q hq => h q (List.mem_cons_of_mem _ hq))
        (fun q hq => hshort q (List.mem_cons_of_mem _ hq)) he

theorem walk_short {place q ps : List String} (h : ∀ part ∈ place, isLong part = false)
    (hw : f.walk place ps = .ok q) : ∀ part ∈ q, isLong part = false := by
  induction ps generalizing place with
  | nil =>
      cases hw
      exact h
  | cons part ps ih =>
      rw [walk] at hw
      split at hw
      · cases hw
      · cases hw
      · split at hw
        · exact ih h hw
        · split at hw
          · exact ih (fun q hq => h q ((List.dropLast_sublist _).subset hq)) hw
          · split at hw
            · cases hw
            · next hl =>
              apply ih _ hw
              intro q hq
              rcases List.mem_append.mp hq with hq | hq
              · exact h q hq
              · rw [List.mem_singleton.mp hq]
                exact Bool.not_eq_true _ ▸ hl

/-- What a path leads to is found by its absolute form, unless that is too long. -/
theorem find?_absolute (hf : f.Rooted) (hcwd : isAbsolute f.cwd = true) {p : String} {e : Entry}
    (h : f.find? p = some e) (hcheck : checkPath (absolute f.cwd p) = .ok ()) :
    f.find? (absolute f.cwd p) = some e := by
  obtain ⟨q, hq, he⟩ := find?_eq_some.mp h
  obtain ⟨-, front, hfront, hparts⟩ := parts_normal (isAbsolute_join hcwd p)
  have hplace : q = (follow true [] (parts (join f.cwd p))).reverse := locate_place hq
  have hnames : ∀ part ∈ q, IsName part := by
    intro part hm
    rw [hplace] at hm
    rcases mem_follow (List.mem_reverse.mp hm) with hm | ⟨-, hn⟩
    · cases hm
    · exact hn
  have hshort := walk_short (by simp) (locate_ok_iff.mp hq).2
  have hjoin : parts (join f.cwd (absolute f.cwd p)) = front ++ q := by
    rw [join_of_absolute (isAbsolute_absolute hcwd p), hplace]
    exact hparts
  refine find?_eq_some.mpr ⟨q, locate_ok_iff.mpr ⟨hcheck, ?_⟩, he⟩
  rw [hjoin, walk_append, walk_blanks hfront]
  exact walk_names hf hnames hshort (by simp [he])

theorem read_absolute (hf : f.Rooted) (hcwd : isAbsolute f.cwd = true) {p : String}
    {content : Content} (h : f.read p = .ok content)
    (hcheck : checkPath (absolute f.cwd p) = .ok ()) :
    f.read (absolute f.cwd p) = .ok content := by
  obtain ⟨time, hfind⟩ := read_ok_iff.mp h
  exact read_ok_iff.mpr ⟨time, find?_absolute hf hcwd hfind hcheck⟩

end Files

open Files Work

variable {p : String} {layout : Layout} {ns : String} {s : Opened} {w w' : Workspace}
  {c : Component}

theorem ofPath_unique {q : String} (hp : isAbsolute p = true) (hq : isAbsolute q = true)
    (h : Url.ofPath q = Url.ofPath p) : q = p := by
  have hread := Url.read_ofPath hq
  rw [h, Url.read_ofPath hp] at hread
  exact (Url.Target.file.inj hread).symm

theorem readUrl_text (hp : isAbsolute p = true) (w : Workspace) :
    Leads (readUrl (Url.ofPath p)) w
      (fun content w' => w = w' ∧ ∃ raw, w.files.read p = .ok raw ∧
        content.toText = String.ofList (Lines.unify raw.toText.toList))
      (fun e w' => w = w' ∧ e = .project (.noFile p) ∧ ∀ raw, w.files.read p ≠ .ok raw) := by
  apply (leads_readUrl hp).mono
  · rintro _ _ ⟨raw, hraw, rfl, rfl⟩
    exact ⟨rfl, raw, hraw, raw.toText_receive⟩
  · rintro e _ ⟨he, hno, rfl⟩
    exact ⟨rfl, he, hno⟩

theorem build_fetched (hw : w.analyzer.Consistent) (hcwd : isAbsolute w.files.cwd = true)
    (hroot : w.files.Rooted) (h : (build layout ns s).run.run w = (.ok c, w')) :
    c.url = some (Url.ofPath (absolute w.files.cwd (modulePath layout ns))) ∧
      ∀ raw, w'.files.read (modulePath layout ns) = .ok raw →
        checkPath (absolute w.files.cwd (modulePath layout ns)) = .ok () →
          w'.files.read (absolute w.files.cwd (modulePath layout ns)) = .ok raw := by
  obtain ⟨m, a, -, hwritten, rfl, -, -⟩ := (leads_of_ok h).mp (build_leads hw)
  have honward := hwritten.onward
  have hsame : w'.files.cwd = w.files.cwd := honward.grown.cwd
  rw [← hsame] at hcwd ⊢
  exact ⟨rfl, fun raw hraw hcheck => read_absolute (honward.rooted hroot) hcwd hraw hcheck⟩

/-- Urls of modules lead back. That of a path leads to this path and is that of no other one. It gives the
text of the file there, where every line end has become a line feed. The url that is made with a module is
that of a path that leads to this module, as far as the path is not too long for the system. -/
theorem module_url {p : String} (hp : isAbsolute p = true) :
    Url.read (Url.ofPath p) = .file p ∧
      (∀ q, isAbsolute q = true → Url.ofPath q = Url.ofPath p → q = p) ∧
      (∀ w, Leads (readUrl (Url.ofPath p)) w
        (fun content w' => w = w' ∧ ∃ raw, w.files.read p = .ok raw ∧
          content.toText = String.ofList (Lines.unify raw.toText.toList))
        (fun e w' => w = w' ∧ e = .project (.noFile p) ∧ ∀ raw, w.files.read p ≠ .ok raw)) ∧
      ∀ layout ns s w c w', w.analyzer.Consistent → isAbsolute w.files.cwd = true →
        w.files.Rooted → absolute w.files.cwd (modulePath layout ns) = p →
        (build layout ns s).run.run w = (.ok c, w') →
          c.url = some (Url.ofPath p) ∧ ∀ raw, w'.files.read (modulePath layout ns) = .ok raw →
            checkPath p = .ok () → w'.files.read p = .ok raw := by
  refine ⟨Url.read_ofPath hp, fun q hq h => ofPath_unique hp hq h, readUrl_text hp, ?_⟩
  rintro layout ns s w c w' hw hcwd hroot rfl h
  exact build_fetched hw hcwd hroot h

def odd : Layout := ⟨["src"], "100% #?;&é"⟩

def alone : Workspace := .ofSources [[], ["src"]] [(["src", "a.sumi"], "(ns a)")]

def opened : Opened := ⟨"/w/src/a.sumi", [.list [.sym "ns", .sym "a"] (some 1)], []⟩

theorem odd_url : ∃ c w', (build odd "a" opened).run.run alone = (.ok c, w') ∧
    c.url = some (Url.ofPath "/w/100% #?;&é/a.py") ∧
    Url.read (Url.ofPath "/w/100% #?;&é/a.py") = .file "/w/100% #?;&é/a.py" ∧
    ∃ raw, w'.files.read "100% #?;&é/a.py" = .ok raw ∧
      w'.files.read "/w/100% #?;&é/a.py" = .ok raw := by
  have hchecked : ((build odd "a" opened).run.run alone).1.isOk = true ∧
      (((build odd "a" opened).run.run alone).2.files.read "100% #?;&é/a.py").isOk = true ∧
      alone.files.Rooted := by
    decide +kernel
  obtain ⟨hok, hread, hroot⟩ := hchecked
  obtain ⟨c, w', hrun⟩ := ends_of_isOk hok
  obtain ⟨hback, -, -, hmade⟩ := module_url (p := "/w/100% #?;&é/a.py") (by decide)
  obtain ⟨hurl, hsame⟩ := hmade odd "a" opened alone c w' (Analyzer.ofLibrary_consistent _ _)
    (by decide) hroot (by decide) hrun
  rw [hrun] at hread
  cases hraw : w'.files.read "100% #?;&é/a.py" with
  | error e =>
      rw [hraw] at hread
      cases hread
  | ok raw => exact ⟨c, w', hrun, hurl, hback, raw, hraw, hsame raw hraw (by decide)⟩

example : Url.ofPath "/w/100% #?;&é/a.py" = "file:///w/100%25%20%23%3F%3B%26%C3%A9/a.py" := by
  decide +kernel

/-- A directory of sources with a carriage return in its name, which stands in the heading of a
module. -/
def returning : Workspace := .ofSources [[], ["s\rc"]] [(["s\rc", "a.sumi"], "(ns a)")]

def returned : Except Fault Component × Workspace :=
  (compileNamespace ⟨["s\rc"], "out"⟩ "a").run.run returning

theorem returned_differs : ∃ c w' content raw, returned = (.ok c, w') ∧
    c.url = some (Url.ofPath "/w/out/a.py") ∧ w'.files.read "/w/out/a.py" = .ok raw ∧
    ((readUrl (Url.ofPath "/w/out/a.py")).run.run w').1 = .ok content ∧
    content.toText ≠ raw.toText := by
  have hchecked : ∃ c ∈ returned.1.toOption, c.url = some (Url.ofPath "/w/out/a.py") ∧
      ∃ raw ∈ (returned.2.files.read "/w/out/a.py").toOption,
      ∃ content ∈ ((readUrl (Url.ofPath "/w/out/a.py")).run.run returned.2).1.toOption,
      content.toText ≠ raw.toText := by
    decide +kernel
  obtain ⟨c, hc, hurl, raw, hraw, content, hcontent, hne⟩ := hchecked
  exact ⟨c, _, content, raw, Prod.ext (toOption_eq_some.mp hc) rfl, hurl, toOption_eq_some.mp hraw,
    toOption_eq_some.mp hcontent, hne⟩

end Sumi.Project

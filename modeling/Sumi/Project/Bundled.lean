import Sumi.Project.Files

namespace Sumi.Project

def sequenceSource : String :=
  "(ns sumi.seq)\n\n" ++
  "; Small sequence helpers bundled with every Sumi installation.\n\n" ++
  "(defn sum\n  \"Sum of the numbers in coll.\"\n  [coll]\n  (reduce + 0 coll))\n\n" ++
  "(defn mean\n  \"Arithmetic mean of coll, nil when coll is empty.\"\n  [coll]\n" ++
  "  (if (empty? coll)\n    nil\n    (/ (sum coll) (count coll))))\n\n" ++
  "(defn frequencies\n" ++
  "  \"Map from each distinct item of coll to the number of times it appears.\"\n  [coll]\n" ++
  "  (reduce (fn [m x] (assoc m x (inc (get m x 0)))) \x7b\x7d coll))\n\n" ++
  "(defn distinct-items\n  \"Items of coll without repeats, in first-seen order.\"\n  [coll]\n" ++
  "  (reduce (fn [acc x] (if (some (fn [y] (= x y)) acc) acc (conj acc x))) [] coll))\n"

def Files.install (f : Files) (path : String) (content : Content) (time : Int) :
    Except FileFault Files := do
  let f ← f.makeDirectories (Path.parent (Path.absolute f.cwd path))
  let place ← f.locate path
  return f.put place (.file content time)

def Files.withLibrary (f : Files) (library : String) (time : Int) : Files :=
  match f.install (Path.join library "sumi/seq.sumi") (.text sequenceSource) time with
  | .ok f => f
  | .error _ => f

structure SourceText where
  path : String
  text : String
  time : Int
  deriving DecidableEq, Repr

def Files.ofSources (cwd : String) (sources : List SourceText) : Files :=
  let now := sources.foldl (fun time s => max time (s.time + 1)) 0
  let f : Files := { entries := [], cwd := cwd, now := now }
  sources.foldl (fun f s => (f.install s.path (.text s.text) s.time).toOption.getD f)
    ((f.makeDirectories cwd).toOption.getD f)

/-- The texts below a directory that are not the same in an earlier tree, by their paths inside the
directory, in order. -/
def Files.changes (before after : Files) (directory : List String) : List (String × String) :=
  let changed := after.entries.filterMap fun (place, entry) =>
    match entry with
    | .directory => none
    | .file content _ =>
        let old := match before.entries.get? place with
          | some (.file content _) => some content.toText
          | _ => none
        if directory.isPrefixOf place && old != some content.toText then
          some ("/".intercalate (place.drop directory.length), content.toText)
        else none
  changed.mergeSort (fun a b => decide (a.1 ≤ b.1))

end Sumi.Project

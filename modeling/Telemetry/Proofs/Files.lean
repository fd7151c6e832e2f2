import Telemetry.Files.Tree
import Telemetry.Proofs.Except

/-!
# Files that were written

A file that was written can be read, until something is written in its place. Whether two paths lead
to one place is seen from the paths alone.

* `FileTree.placeOf`: the place that a path leads to.
* `FileTree.Holds`: a path leads to a file with a given content.
* `FileTree.holds_of_write`, `FileTree.Holds.write`: what a file tree holds after a file was written.
* `FileTree.Holds.createDirectories`: making directories loses no file.
-/

namespace Telemetry.FileTree

/-! ## Places -/

/-- The place to which names lead from another, whatever stands on the way. -/
def follow (place : Place) : List String → Place
  | [] => place
  | name :: rest =>
    if name = "" ∨ name = "." then follow place rest
    else if name = ".." then follow place.dropLast rest
    else follow (place ++ [name]) rest

/-- The names on a path. -/
def pieces (path : String) : List String := (path.toList.splitOn '/').map String.ofList

/-- The place that a path leads to, for a directory in which relative paths begin. -/
def placeOf (home : Place) (path : String) : Place :=
  follow (if path.startsWith "/" then [] else home) (pieces path)

theorem follow_append (place : Place) (xs ys : List String) :
    follow place (xs ++ ys) = follow (follow place xs) ys := by
  induction xs generalizing place with
  | nil => rfl
  | cons x xs ih =>
    simp only [List.cons_append, follow]
    split
    · exact ih place
    · split
      · exact ih place.dropLast
      · exact ih (place ++ [x])

/-- Whether a name stands for itself on a path. -/
def isProper (name : String) : Prop := name ≠ "" ∧ name ≠ "." ∧ name ≠ ".."

theorem follow_eq_append {names : List String} (h : ∀ name ∈ names, isProper name)
    (place : Place) : follow place names = place ++ names := by
  induction names generalizing place with
  | nil => simp [follow]
  | cons name names ih =>
    obtain ⟨hempty, hdot, hdots⟩ := h name List.mem_cons_self
    rw [follow, if_neg (by simp [hempty, hdot]), if_neg hdots,
      ih fun name hname => h name (List.mem_cons_of_mem _ hname)]
    simp

theorem pieces_injective : Function.Injective pieces := by
  intro path path' h
  have hlists : path.toList.splitOn '/' = path'.toList.splitOn '/' :=
    List.map_injective_iff.2 (fun _ _ h => String.ofList_injective h) h
  have hjoined := congrArg (['/'].intercalate ·) hlists
  simp only [List.intercalate_splitOn] at hjoined
  exact String.toList_inj.1 hjoined

theorem pieces_eq_singleton {path : String} (h : '/' ∉ path.toList) : pieces path = [path] := by
  rw [pieces, List.splitOn_eq_singleton h, List.map_singleton, String.ofList_toList]

theorem pieces_append_slash (directory path : String) :
    pieces (directory ++ "/" ++ path) = pieces directory ++ pieces path := by
  have hlist : (directory ++ "/" ++ path).toList = directory.toList ++ '/' :: path.toList := by
    simp
  rw [pieces, hlist, List.splitOn, List.splitOnP_append_cons _ _ (by simp), List.map_append]
  rfl

/-! ## What stands in a tree -/

theorem node?_put (t : FileTree) {place : Place} (hplace : place ≠ []) (node : FileNode)
    (q : Place) : (t.put place node).node? q = if q = place then some node else t.node? q := by
  have hfilter (nodes : List (Place × FileNode)) (hq : q ≠ place) :
      (nodes.filter (·.1 ≠ place)).lookup q = nodes.lookup q := by
    induction nodes with
    | nil => rfl
    | cons entry nodes ih =>
      obtain ⟨p, n⟩ := entry
      by_cases hp : p = place
      · have hne : (q == p) = false := by simpa [hp] using hq
        rw [List.filter_cons_of_neg (by simpa using hp), ih, List.lookup_cons, hne]
      · rw [List.filter_cons_of_pos (by simpa using hp), List.lookup_cons, List.lookup_cons, ih]
  by_cases hempty : q = []
  · have hne : q ≠ place := fun h => hplace (h.symm.trans hempty)
    simp [node?, hempty, hplace.symm]
  · by_cases hq : q = place
    · simp [node?, put, hq, hplace]
    · have hne : (q == place) = false := by simpa using hq
      simp [node?, put, hempty, hq, List.lookup_cons, hne, ← hfilter t.nodes hq]

theorem walk_eq_ok {t : FileTree} {place place' : Place} {names : List String}
    (h : t.walk place names = .ok place') : place' = follow place names := by
  induction names generalizing place with
  | nil =>
    cases h
    rfl
  | cons name names ih =>
    unfold walk at h
    unfold follow
    split at h
    · cases h
    · cases h
    · split at h
      · rw [if_pos ‹_›]
        exact ih h
      · rw [if_neg ‹_›]
        split at h
        · rw [if_pos ‹_›]
          exact ih h
        · rw [if_neg ‹_›]
          split at h
          · cases h
          · exact ih h

/-- A walk needs nothing but the directories on its way. -/
theorem walk_of_directories {t t' : FileTree}
    (hdirectories : ∀ place, t.node? place = some .directory → t'.node? place = some .directory)
    {place place' : Place} {names : List String} (h : t.walk place names = .ok place') :
    t'.walk place names = .ok place' := by
  induction names generalizing place with
  | nil => exact h
  | cons name names ih =>
    unfold walk at h ⊢
    split at h
    · cases h
    · cases h
    · rename_i hnode
      simp only [hdirectories place hnode]
      split at h
      · rw [if_pos ‹_›]
        exact ih h
      · rw [if_neg ‹_›]
        split at h
        · rw [if_pos ‹_›]
          exact ih h
        · rw [if_neg ‹_›]
          split at h
          · cases h
          · rw [if_neg ‹_›]
            exact ih h

/-- Making directories changes nothing that stands in a tree. -/
theorem makeDirectories_eq_ok {t t' : FileTree} {place : Place} {names : List String}
    (h : t.makeDirectories place names = .ok t') :
    t'.home = t.home ∧ ∀ q node, t.node? q = some node → t'.node? q = some node := by
  induction names generalizing t place with
  | nil =>
    cases h
    exact ⟨rfl, fun _ _ hq => hq⟩
  | cons name names ih =>
    unfold makeDirectories at h
    split at h
    · exact ih h
    · split at h
      · exact ih h
      · split at h
        · cases h
        · dsimp only at h
          split at h
          · exact ih h
          · cases h
          · rename_i hnode
            obtain ⟨hhome, hkept⟩ := ih h
            refine ⟨hhome, fun q node hq => hkept q node ?_⟩
            rw [node?_put t (by simp), if_neg fun heq => ?_]
            · exact hq
            · rw [heq, hnode] at hq
              cases hq

theorem createDirectories_eq_ok {t t' : FileTree} {path : String}
    (h : t.createDirectories path = .ok t') :
    t'.home = t.home ∧ ∀ q node, t.node? q = some node → t'.node? q = some node := by
  unfold createDirectories at h
  split at h
  · cases h
    exact ⟨rfl, fun _ _ hq => hq⟩
  · obtain ⟨⟨start, names⟩, -, h⟩ := bind_eq_ok_iff.1 h
    exact makeDirectories_eq_ok h

/-! ## Files -/

theorem names_eq_ok {t : FileTree} {path : String} {found : Place × List String}
    (h : t.names path = .ok found) :
    found = (if path.startsWith "/" then [] else t.home, pieces path) ∧
      ∀ t' : FileTree, t'.home = t.home → t'.names path = .ok found := by
  unfold names at h
  split at h
  · cases h
  · split at h
    · cases h
    · split at h
      · cases h
      · cases h
        refine ⟨rfl, fun t' hhome => ?_⟩
        rw [names, if_neg ‹_›, if_neg ‹_›, if_neg ‹_›, hhome]

/-- A path leads to a file with a given content. -/
structure Holds (t : FileTree) (path : String) (content : List UInt8) : Prop where
  found : ∃ found, t.names path = .ok found ∧
    t.walk found.1 found.2 = .ok (placeOf t.home path)
  node : t.node? (placeOf t.home path) = some (.file content)

theorem Holds.read {t : FileTree} {path : String} {content : List UInt8}
    (h : t.Holds path content) : t.read path = .ok content := by
  obtain ⟨found, hnames, hwalk⟩ := h.found
  refine bind_eq_ok_iff.2 ⟨found, hnames, bind_eq_ok_iff.2 ⟨_, hwalk, ?_⟩⟩
  rw [h.node]
  rfl

/-- A file stays as long as directories stay and nothing is put in its place. -/
theorem Holds.mono {t t' : FileTree} {path : String} {content : List UInt8}
    (h : t.Holds path content) (hhome : t'.home = t.home)
    (hdirectories : ∀ q, t.node? q = some .directory → t'.node? q = some .directory)
    (hnode : t'.node? (placeOf t.home path) = some (.file content)) : t'.Holds path content := by
  obtain ⟨found, hnames, hwalk⟩ := h.found
  refine ⟨⟨found, (names_eq_ok hnames).2 t' hhome, ?_⟩, hhome ▸ hnode⟩
  rw [hhome]
  exact walk_of_directories hdirectories hwalk

theorem Holds.createDirectories {t t' : FileTree} {path path' : String} {content : List UInt8}
    (h : t.Holds path content) (hmake : t.createDirectories path' = .ok t') :
    t'.Holds path content := by
  obtain ⟨hhome, hkept⟩ := createDirectories_eq_ok hmake
  exact h.mono hhome (fun q => hkept q _) (hkept _ _ h.node)

/-- What writing a file does: it puts the content where the path leads, where no directory
stands. -/
theorem write_eq_ok {t t' : FileTree} {path : String} {content : List UInt8}
    (h : t.write path content = .ok t') :
    t'.home = t.home ∧ t.node? (placeOf t.home path) ≠ some .directory ∧
      (∀ q, t'.node? q =
        if q = placeOf t.home path then some (.file content) else t.node? q) ∧
      ∃ found, t.names path = .ok found ∧ t.walk found.1 found.2 = .ok (placeOf t.home path) := by
  obtain ⟨found, hnames, h⟩ := bind_eq_ok_iff.1 h
  dsimp only at h
  split at h
  · obtain ⟨_, -, h⟩ := bind_eq_ok_iff.1 h
    cases h
  · obtain ⟨place, hwalk, h⟩ := bind_eq_ok_iff.1 h
    have hplace : place = placeOf t.home path := by
      rw [walk_eq_ok hwalk, (names_eq_ok hnames).1]
      rfl
    subst hplace
    split at h
    · cases h
    · rename_i hnode
      cases h
      refine ⟨rfl, hnode, node?_put t (fun hroot => hnode ?_) _, found, hnames, hwalk⟩
      rw [hroot]
      rfl

theorem directory_of_write {t t' : FileTree} {path : String} {content : List UInt8}
    (h : t.write path content = .ok t') (q : Place) (hq : t.node? q = some .directory) :
    t'.node? q = some .directory := by
  obtain ⟨-, hnode, hput, -⟩ := write_eq_ok h
  have hne : q ≠ placeOf t.home path := by
    rintro rfl
    exact hnode hq
  rw [hput, if_neg hne]
  exact hq

/-- A file that was written is there. -/
theorem holds_of_write {t t' : FileTree} {path : String} {content : List UInt8}
    (h : t.write path content = .ok t') : t'.Holds path content := by
  obtain ⟨hhome, -, hput, found, hnames, hwalk⟩ := write_eq_ok h
  refine ⟨⟨found, (names_eq_ok hnames).2 _ hhome, ?_⟩, ?_⟩
  · rw [hhome]
    exact walk_of_directories (directory_of_write h) hwalk
  · rw [hput, hhome, if_pos rfl]

/-- Writing a file leaves those at other places alone. -/
theorem Holds.write {t t' : FileTree} {path path' : String} {content content' : List UInt8}
    (h : t.Holds path content) (hne : placeOf t.home path ≠ placeOf t.home path')
    (hwrite : t.write path' content' = .ok t') : t'.Holds path content := by
  obtain ⟨hhome, -, hput, -⟩ := write_eq_ok hwrite
  refine h.mono hhome (directory_of_write hwrite) ?_
  rw [hput, if_neg hne]
  exact h.node

end Telemetry.FileTree

import Telemetry.Command.Generate
import Telemetry.Proofs.Acceptance
import Telemetry.Proofs.Files
import Telemetry.Proofs.Generation

/-!
# Where generated modules go

The path of a generated module is made of the names of its dialect and of its message or
enumeration, in lower case. Modules overwrite each other where such names differ in case only, or
not at all, which nothing forbids for enumerations.

* `Generator.paths_of_run`: the paths of all modules.
* `nodup_paths_iff`: which names lead to paths of their own.
* `placeOf_under_inj`: paths of modules that differ lead to places that differ.
* `writeAll_eq_ok`: what writing files at different places leaves.
* `emissions_separate_iff`: when every module has a file of its own.
* `pings_overwritten`: a dialect that loses a module.
-/

namespace Telemetry.Generate

open Source (isName exists_of_isName)

/-! ## Paths -/

/-- The modules of a dialect under its directory. -/
def moduleNames (d : Dialect) : List String :=
  d.messages.map (fun m => messageModuleName m.name)
    ++ d.enums.map (fun e => enumModuleName e.name) ++ ["mod"]

/-- The paths of the modules of a dialect. -/
def dialectPaths (d : Dialect) : List String := (moduleNames d).map (modulePath d.name)

theorem path_of_emit {render : Renderer} {path : String} {template : Template}
    {context : Context} {e : Emission} (h : emit render path template context = .ok e) :
    e.path = path := by
  obtain ⟨content, -, h⟩ := bind_eq_ok_iff.1 h
  cases h
  rfl

/-- What each result of a list of steps shows of its member. -/
theorem map_of_mapM {ε α β γ : Type} {f : α → Except ε β} {p : β → γ} {q : α → γ}
    {xs : List α} {ys : List β} (hf : ∀ x ∈ xs, ∀ y, f x = .ok y → p y = q x)
    (h : xs.mapM f = .ok ys) : ys.map p = xs.map q := by
  rw [mapM_eq_ok_iff] at h
  induction h with
  | nil => rfl
  | cons hy _ ih =>
    rw [List.forall_mem_cons] at hf
    rw [List.map_cons, List.map_cons, hf.1 _ hy, ih hf.2]

namespace Generator

variable {g : Generator} {s : DialectSet}

theorem path_of_buildUnit {d : Dialect} {m : Message} {u : MessageUnit}
    (h : g.buildUnit d m = .ok u) :
    u.emission.path = modulePath d.name (messageModuleName m.name) := by
  obtain ⟨plan, -, h⟩ := bind_eq_ok_iff.1 h
  obtain ⟨emission, hemission, h⟩ := bind_eq_ok_iff.1 h
  cases h
  exact path_of_emit (mapError_eq_ok_iff.1 hemission)

theorem paths_of_assemble {d : Dialect} {output : DialectOutput} (hd : s.get? d.name = some d)
    (h : g.assemble s d.name = .ok output) : output.emissions.map (·.path) = dialectPaths d := by
  obtain ⟨-, hunits, -, henums, hmodule⟩ := assemble_eq_ok hd h
  have hmessages : output.units.map (fun u => u.emission.path) =
      d.messages.map fun m => modulePath d.name (messageModuleName m.name) := by
    rw [buildUnits_eq] at hunits
    exact map_of_mapM (fun _ _ _ => path_of_buildUnit) hunits
  have henums : output.enums.map (·.path) =
      d.enums.map fun e => modulePath d.name (enumModuleName e.name) :=
    map_of_mapM (fun _ _ _ he => path_of_emit he) henums
  have hmodule := path_of_emit hmodule
  simp only [DialectOutput.emissions, dialectPaths, moduleNames, List.map_append, List.map_map,
    List.map_cons, List.map_nil, henums, hmodule, Function.comp_def, hmessages]

/-- The paths of all modules. -/
theorem paths_of_run (hs : (s.dialects.map (·.name)).Nodup) {generation : Generation}
    (h : g.run s = .ok generation) :
    generation.emissions.map (·.path) =
      s.dialects.flatMap dialectPaths ++ ["framing.rs", "mod.rs"] := by
  obtain ⟨houtputs, hroot, rows, hframing⟩ := run_eq_ok h
  have hpaths : generation.dialects.map (fun o => o.emissions.map (·.path)) =
      s.dialects.map dialectPaths :=
    map_of_mapM (fun d hd _ => paths_of_assemble (DialectSet.get?_name hs hd)) houtputs
  rw [List.flatMap_def, ← hpaths, ← List.flatMap_def, Generation.emissions, List.map_append,
    List.map_flatMap, List.map_cons, List.map_cons, path_of_emit hframing, path_of_emit hroot]
  rfl

end Generator

/-! ## Names on paths -/

/-- A character that is no letter is no other's lower case. -/
theorem eq_of_toLower_eq {c x : Char} (hx : x.toNat < 97) (h : c.toLower = x) : c = x := by
  unfold Char.toLower at h
  split at h
  · rename_i hc
    have hval := congrArg (fun c => c.val.toNat) h
    have hlow := UInt32.le_iff_toNat_le.1 hc.1
    have hhigh := UInt32.le_iff_toNat_le.1 hc.2
    simp at hval hlow hhigh
    omega
  · exact h

/-- In lower case, too, names have only characters of names in them. -/
theorem notMem_lowered {name : String} (h : isName name = true) {x : Char} (hx : x.toNat < 97)
    (hident : Source.Grammar.isIdentStart x = false ∧ Source.Grammar.isIdentRest x = false) :
    x ∉ (lowered name).toList := by
  rw [lowered, String.toList_map, List.mem_map]
  rintro ⟨c, hc, hlower⟩
  obtain rfl := eq_of_toLower_eq hx hlower
  exact notMem_of_isName h hident hc

theorem notMem_identifier {name : String} {x : Char} (hname : x ∉ name.toList)
    (hx : x ∉ ['_', 'r', '#']) : x ∉ (identifier name).toList := by
  simp only [List.mem_cons, List.not_mem_nil, or_false, not_or] at hx
  unfold identifier
  split
  · simp [hname, hx]
  · split
    · simp [hname, hx]
    · exact hname

theorem slash_notMem_lowered {name : String} (h : isName name = true) :
    '/' ∉ (lowered name).toList :=
  notMem_lowered h (by decide) (by decide)

theorem slash_notMem_dialectModuleName {name : String} (h : isName name = true) :
    '/' ∉ (dialectModuleName name).toList :=
  notMem_identifier (slash_notMem_lowered h) (by decide)

theorem slash_notMem_moduleNames {d : Dialect} (hd : d.Named) {module : String}
    (hmodule : module ∈ moduleNames d) : '/' ∉ module.toList := by
  simp only [moduleNames, List.mem_append, List.mem_map, List.mem_singleton] at hmodule
  rcases hmodule with (⟨m, hm, rfl⟩ | ⟨e, he, rfl⟩) | rfl
  · simpa [messageModuleName] using slash_notMem_lowered (hd.messages m hm)
  · simpa [enumModuleName] using slash_notMem_lowered (hd.enums e he)
  · decide

theorem toList_modulePath (dialect module : String) :
    (modulePath dialect module).toList =
      (dialectModuleName dialect).toList ++ '/' :: (module ++ ".rs").toList := by
  simp [modulePath, toString]

theorem modulePath_inj {dialect dialect' module module' : String}
    (hdialect : '/' ∉ (dialectModuleName dialect).toList) (hmodule : '/' ∉ module.toList) :
    modulePath dialect module = modulePath dialect' module' ↔
      dialectModuleName dialect = dialectModuleName dialect' ∧ module = module' := by
  have hrest : '/' ∉ (module ++ ".rs").toList := by simpa using hmodule
  rw [← String.toList_inj, toList_modulePath, toList_modulePath,
    List.append_cons_inj_of_notMem hdialect hrest]
  simp [← String.toList_inj]

/-! ## Which paths differ -/

/-- The modules of a dialect have names of their own if its messages have, and its enumerations,
whatever the case of letters. -/
theorem nodup_moduleNames_iff (d : Dialect) :
    (moduleNames d).Nodup ↔ (d.messages.map fun m => lowered m.name).Nodup ∧
      (d.enums.map fun e => lowered e.name).Nodup := by
  have hmap (first : String) (names : List String) :
      (names.map fun name => first ++ name).Nodup ↔ names.Nodup :=
    List.nodup_map_iff fun x y h => by simpa [← String.toList_inj] using h
  have hmessages := hmap "msg_" (d.messages.map fun m => lowered m.name)
  have henums := hmap "enum_" (d.enums.map fun e => lowered e.name)
  rw [List.map_map] at hmessages henums
  rw [← hmessages, ← henums, moduleNames, List.nodup_append, List.nodup_append]
  constructor
  · rintro ⟨⟨hm, he, -⟩, -⟩
    exact ⟨hm, he⟩
  · rintro ⟨hm, he⟩
    refine ⟨⟨hm, he, ?_⟩, List.nodup_singleton _, ?_⟩
    · intro x hx y hy
      obtain ⟨m, -, rfl⟩ := List.mem_map.1 hx
      obtain ⟨e, -, rfl⟩ := List.mem_map.1 hy
      simp [messageModuleName, enumModuleName, ← String.toList_inj]
    · intro x hx y hy
      rw [List.mem_singleton.1 hy]
      rcases List.mem_append.1 hx with hx | hx
      · obtain ⟨m, -, rfl⟩ := List.mem_map.1 hx
        simp [messageModuleName, ← String.toList_inj]
      · obtain ⟨e, -, rfl⟩ := List.mem_map.1 hx
        simp [enumModuleName, ← String.toList_inj]

theorem nodup_dialectPaths_iff {d : Dialect} (hname : isName d.name = true) (hd : d.Named) :
    (dialectPaths d).Nodup ↔ (moduleNames d).Nodup := by
  have hslash := slash_notMem_dialectModuleName hname
  rw [dialectPaths]
  refine ⟨fun h => .of_map _ h, fun h => h.map_on fun x hx y hy hxy => ?_⟩
  exact ((modulePath_inj hslash (slash_notMem_moduleNames hd hx)).1 hxy).2

/-- Two dialects have no path in common if their directories have different names. -/
theorem disjoint_dialectPaths_iff {d d' : Dialect} (hname : isName d.name = true) (hd : d.Named) :
    (dialectPaths d).Disjoint (dialectPaths d') ↔
      dialectModuleName d.name ≠ dialectModuleName d'.name := by
  have hslash := slash_notMem_dialectModuleName hname
  constructor
  · intro h heq
    have hmod (d : Dialect) : modulePath d.name "mod" ∈ dialectPaths d :=
      List.mem_map_of_mem (List.mem_append_right _ List.mem_cons_self)
    refine h (hmod d) ?_
    rw [modulePath, heq]
    exact hmod d'
  · intro hne path hpath hpath'
    obtain ⟨x, hx, rfl⟩ := List.mem_map.1 hpath
    obtain ⟨y, -, hxy⟩ := List.mem_map.1 hpath'
    exact hne ((modulePath_inj hslash (slash_notMem_moduleNames hd hx)).1 hxy.symm).1

/-- **Which names lead to paths of their own.** -/
theorem nodup_paths_iff {ds : List Dialect} (hds : ∀ d ∈ ds, isName d.name = true ∧ d.Named) :
    (ds.flatMap dialectPaths ++ ["framing.rs", "mod.rs"]).Nodup ↔
      (ds.map fun d => dialectModuleName d.name).Nodup ∧
      ∀ d ∈ ds, (d.messages.map fun m => lowered m.name).Nodup ∧
        (d.enums.map fun e => lowered e.name).Nodup := by
  have hcommon : ∀ path ∈ ds.flatMap dialectPaths, ∀ path' ∈ ["framing.rs", "mod.rs"],
      path ≠ path' := by
    -- Only paths of dialects have a slash.
    rintro path hpath path' hpath' rfl
    obtain ⟨d, -, hpath⟩ := List.mem_flatMap.1 hpath
    obtain ⟨module, -, rfl⟩ := List.mem_map.1 hpath
    have hslash : '/' ∈ (modulePath d.name module).toList := by simp [toList_modulePath]
    simp only [List.mem_cons, List.not_mem_nil, or_false] at hpath'
    rcases hpath' with heq | heq <;> rw [heq] at hslash <;> exact absurd hslash (by decide)
  have hdirectories : ds.Pairwise (fun d d' => (dialectPaths d).Disjoint (dialectPaths d')) ↔
      (ds.map fun d => dialectModuleName d.name).Nodup := by
    rw [List.Nodup, List.pairwise_map]
    refine List.Pairwise.iff_of_mem fun {d d'} hd _ => ?_
    exact disjoint_dialectPaths_iff (hds d hd).1 (hds d hd).2
  have hmodules : (∀ d ∈ ds, (dialectPaths d).Nodup) ↔ ∀ d ∈ ds,
      (d.messages.map fun m => lowered m.name).Nodup ∧
        (d.enums.map fun e => lowered e.name).Nodup := by
    refine forall₂_congr fun d hd => ?_
    rw [nodup_dialectPaths_iff (hds d hd).1 (hds d hd).2, nodup_moduleNames_iff]
  rw [List.nodup_append, List.nodup_flatMap, hmodules]
  constructor
  · rintro ⟨⟨hm, hd⟩, -⟩
    exact ⟨hdirectories.1 hd, hm⟩
  · rintro ⟨hd, hm⟩
    exact ⟨⟨hm, hdirectories.2 hd⟩, by decide, hcommon⟩

/-! ## Places -/

open FileTree

theorem isProper_file (module : String) : isProper (module ++ ".rs") := by
  have hlength {name : String} (h : module ++ ".rs" = name) : 3 ≤ name.toList.length := by
    rw [← h]
    simp
  refine ⟨?_, ?_, ?_⟩ <;> intro h <;> exact absurd (hlength h) (by decide)

theorem isProper_dialectModuleName {name : String} (h : isName name = true) :
    isProper (dialectModuleName name) := by
  obtain ⟨c, cs, hname, hc, -⟩ := exists_of_isName h
  have hlowered : (lowered name).toList = c.toLower :: cs.map Char.toLower := by
    rw [lowered, String.toList_map, hname, List.map_cons]
  have hdot : c.toLower ≠ '.' := by
    intro hlower
    rw [eq_of_toLower_eq (by decide) hlower] at hc
    exact absurd hc (by decide)
  have hhead {s : String} {x : Char} {xs : List Char} (hs : s.toList = x :: xs) (hx : x ≠ '.') :
      isProper s := by
    refine ⟨?_, ?_, ?_⟩ <;> rintro rfl <;> cases hs
    · exact hx rfl
    · exact hx rfl
  unfold dialectModuleName identifier
  split
  · exact hhead (by rw [String.toList_append, hlowered]; rfl) hdot
  · split
    · exact hhead (by rw [String.toList_append]; rfl) (by decide)
    · exact hhead hlowered hdot

theorem pieces_modulePath {dialect module : String}
    (hdialect : '/' ∉ (dialectModuleName dialect).toList) (hmodule : '/' ∉ module.toList) :
    pieces (modulePath dialect module) = [dialectModuleName dialect, module ++ ".rs"] := by
  have hpath : modulePath dialect module = dialectModuleName dialect ++ "/" ++ (module ++ ".rs") :=
    String.toList_inj.1 (by simp [toList_modulePath])
  rw [hpath, pieces_append_slash, pieces_eq_singleton hdialect,
    pieces_eq_singleton (by simpa using hmodule)]
  rfl

/-- The paths of modules are made of proper names. -/
theorem isProper_pieces {ds : List Dialect} (hds : ∀ d ∈ ds, isName d.name = true ∧ d.Named)
    {path : String} (hpath : path ∈ ds.flatMap dialectPaths ++ ["framing.rs", "mod.rs"]) :
    ∀ name ∈ pieces path, isProper name := by
  rcases List.mem_append.1 hpath with hpath | hpath
  · obtain ⟨d, hd, hpath⟩ := List.mem_flatMap.1 hpath
    obtain ⟨module, hmodule, rfl⟩ := List.mem_map.1 hpath
    obtain ⟨hname, hnamed⟩ := hds d hd
    rw [pieces_modulePath (slash_notMem_dialectModuleName hname)
      (slash_notMem_moduleNames hnamed hmodule), List.forall_mem_cons, List.forall_mem_singleton]
    exact ⟨isProper_dialectModuleName hname, isProper_file module⟩
  · simp only [List.mem_cons, List.not_mem_nil, or_false] at hpath
    rcases hpath with rfl | rfl
    · rw [pieces_eq_singleton (by decide), List.forall_mem_singleton]
      exact isProper_file "framing"
    · rw [pieces_eq_singleton (by decide), List.forall_mem_singleton]
      exact isProper_file "mod"

/-- Under a directory, the names of a path follow those of the directory. -/
theorem exists_placeOf_under (home : Place) (directory : String) :
    ∃ base : Place, ∀ path, (∀ name ∈ pieces path, isProper name) →
      placeOf home (under directory path) = base ++ pieces path := by
  have hslash {path : String} (h : ∀ name ∈ pieces path, isProper name) :
      path.startsWith "/" = false := by
    rw [← Bool.not_eq_true, String.startsWith_string_iff]
    rintro ⟨rest, hrest⟩
    have hpath : path = "" ++ "/" ++ String.ofList rest := by
      rw [← String.toList_inj, ← hrest]
      simp
    refine (h "" ?_).1 rfl
    rw [hpath, pieces_append_slash]
    exact List.mem_append_left _ List.mem_cons_self
  by_cases hempty : directory = ""
  · refine ⟨home, fun path hpath => ?_⟩
    rw [under, if_pos (.inl hempty), hempty, String.empty_append, placeOf, hslash hpath]
    exact follow_eq_append hpath home
  · -- The directory decides whether a path begins at the root.
    have hstart (rest : String) : (directory ++ rest).startsWith "/" = directory.startsWith "/" := by
      obtain ⟨c, cs, hlist⟩ := List.exists_cons_of_ne_nil fun h => hempty (String.toList_eq_nil_iff.1 h)
      rw [Bool.eq_iff_iff, String.startsWith_string_iff, String.startsWith_string_iff,
        String.toList_append, hlist]
      simp
    have hnames : ∃ names, ∀ path, pieces (under directory path) = names ++ pieces path := by
      by_cases hend : directory.endsWith '/'
      · obtain ⟨above, habove⟩ := String.endsWith_char_iff_exists_append.1 hend
        refine ⟨pieces above, fun path => ?_⟩
        rw [under, if_pos (.inr hend), habove]
        exact pieces_append_slash above path
      · refine ⟨pieces directory, fun path => ?_⟩
        rw [under, if_neg (by simp [hempty, hend])]
        exact pieces_append_slash directory path
    have hunder (path : String) : ∃ rest, under directory path = directory ++ rest := by
      unfold under
      split
      · exact ⟨path, rfl⟩
      · exact ⟨"/" ++ path, String.append_assoc⟩
    obtain ⟨names, hnames⟩ := hnames
    refine ⟨follow (if directory.startsWith "/" then [] else home) names, fun path hpath => ?_⟩
    obtain ⟨rest, hrest⟩ := hunder path
    rw [placeOf, hnames, follow_append, follow_eq_append hpath, hrest, hstart]

/-- Paths of modules that differ lead to places that differ. -/
theorem placeOf_under_inj {home : Place} {directory path path' : String}
    (hpath : ∀ name ∈ pieces path, isProper name) (hpath' : ∀ name ∈ pieces path', isProper name)
    (h : placeOf home (under directory path) = placeOf home (under directory path')) :
    path = path' := by
  obtain ⟨base, hbase⟩ := exists_placeOf_under home directory
  rw [hbase path hpath, hbase path' hpath'] at h
  exact pieces_injective (List.append_cancel_left h)

/-! ## Writing -/

theorem stateM_bind_apply {σ α β : Type} {x : StateM σ α} {k : α → StateM σ β} {s s' : σ} {a : α}
    (h : x s = (a, s')) : (x >>= k) s = k a s' := by
  change StateT.bind x k s = _
  rw [StateT.bind, h]
  rfl

/-- Files are written if the first is, into its directory, and then the others. -/
theorem writeAll_cons_eq_ok {directory : String} {written n : Nat} {e : Emission}
    {rest : List Emission} {scene scene' : Scene}
    (h : writeAll Scene.host directory written (e :: rest) scene = (.ok n, scene')) :
    ∃ made tree, scene.tree.createDirectories (parent (under directory e.path)) = .ok made ∧
      made.write (under directory e.path) (Utf8.encode e.content) = .ok tree ∧
      writeAll Scene.host directory (written + 1) rest { scene with tree } = (.ok n, scene') := by
  have hchange (f : FileTree → Except FileError FileTree) (scene : Scene) :
      (∃ fault, Scene.change f scene = (.error fault, scene)) ∨
        ∃ tree, f scene.tree = .ok tree ∧
          Scene.change f scene = (.ok (), { scene with tree }) := by
    unfold Scene.change
    cases f scene.tree with
    | error fault => exact .inl ⟨fault, rfl⟩
    | ok tree => exact .inr ⟨tree, rfl, rfl⟩
  simp only [writeAll, Scene.host] at h
  rcases hchange (·.createDirectories (parent (under directory e.path))) scene with
    ⟨fault, hmade⟩ | ⟨made, hmade, hscene⟩
  · rw [stateM_bind_apply hmade] at h
    cases h
  · rw [stateM_bind_apply hscene] at h
    dsimp only at h
    rcases hchange (·.write (under directory e.path) (Utf8.encode e.content))
      { scene with tree := made } with ⟨fault, hwrite⟩ | ⟨tree, hwrite, hscene⟩
    · rw [stateM_bind_apply hwrite] at h
      cases h
    · rw [stateM_bind_apply hscene] at h
      exact ⟨made, tree, hmade, hwrite, h⟩

/-- Files that go to different places are all there once they are written, with those that were
there at other places. -/
theorem writeAll_eq_ok {directory : String} {written n : Nat} {es : List Emission}
    {scene scene' : Scene}
    (hplaces : (es.map fun e => placeOf scene.tree.home (under directory e.path)).Nodup)
    (h : writeAll Scene.host directory written es scene = (.ok n, scene')) :
    n = written + es.length ∧ scene'.tree.home = scene.tree.home ∧
      (∀ e ∈ es, scene'.tree.Holds (under directory e.path) (Utf8.encode e.content)) ∧
      ∀ path content, scene.tree.Holds path content →
        placeOf scene.tree.home path ∉
          es.map (fun e => placeOf scene.tree.home (under directory e.path)) →
        scene'.tree.Holds path content := by
  induction es generalizing written scene with
  | nil =>
    cases h
    exact ⟨rfl, rfl, nofun, fun _ _ hold _ => hold⟩
  | cons e es ih =>
    obtain ⟨made, tree, hmade, hwrite, h⟩ := writeAll_cons_eq_ok h
    have hmadeHome := (createDirectories_eq_ok hmade).1
    have hhome : tree.home = scene.tree.home := (write_eq_ok hwrite).1.trans hmadeHome
    rw [List.map_cons, List.nodup_cons] at hplaces
    rw [← hhome] at hplaces
    obtain ⟨hn, hhome', hes, hkept⟩ := ih hplaces.2 h
    refine ⟨by rw [hn, List.length_cons]; omega, hhome'.trans hhome, ?_, ?_⟩
    · intro e' he'
      rcases List.mem_cons.1 he' with rfl | he'
      · exact hkept _ _ (holds_of_write hwrite) hplaces.1
      · exact hes e' he'
    · intro path content hold hpath
      rw [List.map_cons, List.mem_cons, not_or, ← hhome] at hpath
      refine hkept path content ?_ hpath.2
      refine (hold.createDirectories hmade).write ?_ hwrite
      rw [hmadeHome, ← hhome]
      exact hpath.1

/-- What writing given modules under a directory of an empty tree leaves. -/
theorem exists_writeTo {γ : Type} {generation : Generation} {directory : String}
    {es : List Emission} (hes : generation.emissions = es) (f : Scene → γ) {n : Nat} {c : γ}
    (h : (writeAll Scene.host directory 0 es { tree := {} }).1.toOption.map
      (fun written => (written, f (writeAll Scene.host directory 0 es { tree := {} }).2)) =
        some (n, c)) :
    ∃ scene, generation.writeTo Scene.host directory { tree := {} } = (.ok n, scene) ∧
      f scene = c := by
  obtain ⟨written, hwritten, hpair⟩ := exists_of_toOption_map h
  obtain ⟨rfl, hc⟩ := Prod.mk.inj hpair
  subst hes
  exact ⟨_, Prod.ext hwritten rfl, hc⟩

/-- **When every module has a file of its own.** Take a set of dialects that were read from texts,
and the modules that are generated for it. Their paths differ exactly if the directories of the
dialects do, and in each dialect the names of messages and the names of enumerations, whatever the
case of letters. If so, then whenever all of them are written under some directory, their number is
that of the files, each of which stands at a place of its own and can be read. -/
theorem emissions_separate_iff {dialects : List Dialect} {s : DialectSet}
    (hs : dialects.foldlM DialectSet.insert {} = .ok s)
    (hparsed : ∀ d ∈ s.dialects, ∃ text, Dialect.ofText text = .ok d) {g : Generator}
    {generation : Generation} (hrun : g.run s = .ok generation) :
    ((generation.emissions.map (·.path)).Nodup ↔
      (s.dialects.map fun d => dialectModuleName d.name).Nodup ∧
      ∀ d ∈ s.dialects, (d.messages.map fun m => lowered m.name).Nodup ∧
        (d.enums.map fun e => lowered e.name).Nodup) ∧
    ((generation.emissions.map (·.path)).Nodup → ∀ directory scene n scene',
      generation.writeTo Scene.host directory scene = (.ok n, scene') →
      n = generation.emissions.length ∧
      (generation.emissions.map fun e =>
        placeOf scene.tree.home (under directory e.path)).Nodup ∧
      ∀ e ∈ generation.emissions,
        scene'.tree.node? (placeOf scene.tree.home (under directory e.path)) =
          some (.file (Utf8.encode e.content)) ∧
        scene'.tree.read (under directory e.path) = .ok (Utf8.encode e.content)) := by
  have hnames : ∀ d ∈ s.dialects, isName d.name = true ∧ d.Named := by
    intro d hd
    obtain ⟨text, htext⟩ := hparsed d hd
    exact ⟨Dialect.isName_of_ofText htext, (Source.dialectOf_eq_ok htext).2.1⟩
  have hpaths := Generator.paths_of_run (DialectSet.names_nodup hs) hrun
  refine ⟨by rw [hpaths]; exact nodup_paths_iff hnames, fun hnodup directory scene n scene' h => ?_⟩
  have hplaces : (generation.emissions.map fun e =>
      placeOf scene.tree.home (under directory e.path)).Nodup := by
    have hproper : ∀ path ∈ generation.emissions.map (·.path),
        ∀ name ∈ pieces path, isProper name := fun path hpath =>
      isProper_pieces hnames (hpaths ▸ hpath)
    have hmap := hnodup.map_on (f := fun path => placeOf scene.tree.home (under directory path))
      fun path hpath path' hpath' =>
        placeOf_under_inj (hproper path hpath) (hproper path' hpath')
    rw [List.map_map] at hmap
    exact hmap
  obtain ⟨hn, hhome, hes, -⟩ := writeAll_eq_ok hplaces h
  refine ⟨by rw [hn, Nat.zero_add], hplaces, fun e he => ⟨?_, (hes e he).read⟩⟩
  rw [← hhome]
  exact (hes e he).node

/-- A generator of modules that hold a name and nothing else. -/
def nameGenerator : Generator where
  render := fun _ context =>
    match context.get? "name" with
    | some (.text name) => .ok name
    | _ => .ok ""

/-- A file that declares a message and an enumeration of one name. -/
def modesText : String :=
  "dialect mod; option no_crc_extra; enum MODE \x7b OFF = 0; \x7d " ++
    "message MODE = 1 \x7b a: uint8_t; \x7d message PONG = 2 \x7b \x7d"

/-- The dialect of the file. -/
def modes : Dialect where
  name := "mod"
  flags := { fingerprints := false }
  enums := [{ name := "MODE", entries := [⟨"OFF", 0, none⟩] }]
  messages :=
    [{ id := 1, name := "MODE", fields := [⟨"a", "uint8_t", 0, none⟩]
       fingerprint := 0, baseLength := 1, fullLength := 1 },
      { id := 2, name := "PONG", fields := [], fingerprint := 0, baseLength := 0, fullLength := 0 }]

theorem emissions_separate_iff_modes :
    Dialect.ofText modesText = .ok modes ∧
      [modes].foldlM DialectSet.insert {} = .ok ⟨[modes]⟩ ∧
      ∃ generation scene, nameGenerator.run ⟨[modes]⟩ = .ok generation ∧
        (generation.emissions.map (·.path)).Nodup ∧
        generation.writeTo Scene.host "out" { tree := {} } = (.ok 6, scene) ∧
        scene.tree.files.length = 6 ∧
        scene.tree.read (under "out" "r#mod/msg_pong.rs") = .ok (Utf8.encode "PONG") := by
  have htext : Dialect.ofText modesText = .ok modes :=
    eq_ok_of_toOption (by decide +kernel)
  have hs : [modes].foldlM DialectSet.insert {} = .ok ⟨[modes]⟩ := rfl
  obtain ⟨generation, hrun, hes⟩ := exists_of_toOption_map
    (by decide +kernel : (nameGenerator.run ⟨[modes]⟩).toOption.map Generation.emissions =
      some [⟨"r#mod/msg_mode.rs", "MODE"⟩, ⟨"r#mod/msg_pong.rs", "PONG"⟩,
        ⟨"r#mod/enum_mode.rs", "MODE"⟩, ⟨"r#mod/mod.rs", "mod"⟩, ⟨"framing.rs", ""⟩,
        ⟨"mod.rs", ""⟩])
  obtain ⟨scene, hwrite, hlength⟩ : ∃ scene,
      generation.writeTo Scene.host "out" { tree := {} } = (.ok 6, scene) ∧
        scene.tree.files.length = 6 :=
    exists_writeTo hes (fun scene => scene.tree.files.length) (by decide +kernel)
  have hnodup : (generation.emissions.map (·.path)).Nodup := by
    rw [hes]
    decide
  have hfiles := (emissions_separate_iff hs
    (fun d hd => ⟨modesText, by rw [List.mem_singleton.1 hd]; exact htext⟩) hrun).2 hnodup
  obtain ⟨-, -, hread⟩ := hfiles "out" _ 6 scene hwrite
  have hpong : ⟨"r#mod/msg_pong.rs", "PONG"⟩ ∈ generation.emissions := by simp [hes]
  exact ⟨htext, hs, generation, scene, hrun, hnodup, hwrite, hlength, (hread _ hpong).2⟩

/-- A file that declares two messages with names that differ in case only. -/
def pingsText : String :=
  "dialect d; message PING = 1 \x7b a: uint8_t; \x7d message Ping = 2 \x7b b: uint16_t; \x7d"

/-- The dialect of the file. -/
def pings : Dialect where
  name := "d"
  messages :=
    [{ id := 1, name := "PING", fields := [⟨"a", "uint8_t", 0, none⟩]
       fingerprint := 222, baseLength := 1, fullLength := 1 },
      { id := 2, name := "Ping", fields := [⟨"b", "uint16_t", 0, none⟩]
        fingerprint := 173, baseLength := 2, fullLength := 2 }]

/-- **Modules can be lost.** The modules of the two messages have one path, so that five files are
written and reported, and four are left. The module of the first message is not among them. -/
theorem pings_overwritten :
    Dialect.ofText pingsText = .ok pings ∧
      [pings].foldlM DialectSet.insert {} = .ok ⟨[pings]⟩ ∧
      (∃ generation, ({} : Generator).run ⟨[pings]⟩ = .ok generation ∧
        generation.emissions.map (·.path) =
          ["d/msg_ping.rs", "d/msg_ping.rs", "d/mod.rs", "framing.rs", "mod.rs"]) ∧
      ∃ generation scene, nameGenerator.run ⟨[pings]⟩ = .ok generation ∧
        ⟨"d/msg_ping.rs", "PING"⟩ ∈ generation.emissions ∧
        generation.writeTo Scene.host "out" { tree := {} } = (.ok 5, scene) ∧
        scene.tree.files.length = 4 ∧
        (scene.tree.read (under "out" "d/msg_ping.rs")).toOption = some (Utf8.encode "Ping") := by
  have htext : Dialect.ofText pingsText = .ok pings :=
    eq_ok_of_toOption (by decide +kernel)
  have hpaths : ∃ generation, ({} : Generator).run ⟨[pings]⟩ = .ok generation ∧
      generation.emissions.map (·.path) =
        ["d/msg_ping.rs", "d/msg_ping.rs", "d/mod.rs", "framing.rs", "mod.rs"] :=
    exists_of_toOption_map (by decide +kernel)
  obtain ⟨generation, hrun, hes⟩ := exists_of_toOption_map
    (by decide +kernel : (nameGenerator.run ⟨[pings]⟩).toOption.map Generation.emissions =
      some [⟨"d/msg_ping.rs", "PING"⟩, ⟨"d/msg_ping.rs", "Ping"⟩, ⟨"d/mod.rs", "d"⟩,
        ⟨"framing.rs", ""⟩, ⟨"mod.rs", ""⟩])
  obtain ⟨scene, hwrite, hscene⟩ : ∃ scene,
      generation.writeTo Scene.host "out" { tree := {} } = (.ok 5, scene) ∧
        (scene.tree.files.length, (scene.tree.read (under "out" "d/msg_ping.rs")).toOption) =
          (4, some (Utf8.encode "Ping")) :=
    exists_writeTo hes
      (fun scene => (scene.tree.files.length,
        (scene.tree.read (under "out" "d/msg_ping.rs")).toOption)) (by decide +kernel)
  obtain ⟨hlength, hread⟩ := Prod.mk.inj hscene
  exact ⟨htext, rfl, hpaths, generation, scene, hrun, by simp [hes], hwrite, hlength, hread⟩

end Telemetry.Generate

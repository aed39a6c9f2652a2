import Feagi.Brain.Connectome

/-!
# Which cortical areas are keys of `brain`

Every call keeps the blueprint, the `cortical_areas` snapshot and the set of connectome files,
and only adds keys to `brain` (`Keeps`). Loading keys exactly the blueprint areas that have a
file, and `reset_brain` keys every blueprint area.
-/

namespace Feagi.Brain

section Dict

variable {β : Type} (d : List (String × β)) (key : String) (value : β)

theorem map_fst_dictSet :
    (dictSet d key value).map (·.1) =
      if d.any (·.1 == key) then d.map (·.1) else d.map (·.1) ++ [key] := by
  unfold dictSet
  split_ifs
  · simp only [List.map_map]
    congr 1
    funext entry
    simp only [Function.comp_apply]
    split_ifs with same <;> simp [same]
  · simp

theorem mem_keys_dictSet {x : String} :
    x ∈ (dictSet d key value).map (·.1) ↔ x ∈ d.map (·.1) ∨ x = key := by
  rw [map_fst_dictSet]
  split_ifs with present
  · refine ⟨.inl, fun h => h.elim id fun e => ?_⟩
    obtain ⟨entry, member, same⟩ := List.any_eq_true.mp present
    exact List.mem_map.mpr ⟨entry, member, by simpa [e] using same⟩
  · simp

theorem lookup_isSome_iff_mem : (d.lookup key).isSome ↔ key ∈ d.map (·.1) := by
  simp [List.lookup_isSome_iff]

end Dict

namespace Universal

def keys (u : Universal) : List String := u.brain.map (·.1)

def HasFile (u : Universal) (area : String) : Prop := u.connectomeFile area ∈ u.files.map (·.1)

/-- What every call keeps; `brain` only gains keys. -/
structure Keeps (u v : Universal) : Prop where
  blueprint : v.blueprint = u.blueprint
  corticalAreas : v.corticalAreas = u.corticalAreas
  connectomePath : v.connectomePath = u.connectomePath
  files : v.files.map (·.1) = u.files.map (·.1)
  keys : ∀ area ∈ u.keys, area ∈ v.keys

theorem Keeps.refl (u : Universal) : Keeps u u := ⟨rfl, rfl, rfl, rfl, fun _ => id⟩

theorem Keeps.trans {u v w : Universal} (h₁ : Keeps u v) (h₂ : Keeps v w) : Keeps u w :=
  ⟨h₂.blueprint.trans h₁.blueprint, h₂.corticalAreas.trans h₁.corticalAreas,
    h₂.connectomePath.trans h₁.connectomePath, h₂.files.trans h₁.files,
    fun a m => h₂.keys a (h₁.keys a m)⟩

theorem Keeps.hasFile_iff {u v : Universal} {area : String} (h : Keeps u v) :
    v.HasFile area ↔ u.HasFile area := by
  simp only [HasFile, connectomeFile, h.connectomePath, h.files]

theorem keeps_saveArea (u : Universal) (corticalArea : String) : Keeps u (u.saveArea corticalArea).1 := by
  unfold saveArea
  dsimp only
  split
  · exact .refl u
  · exact .refl u
  · rename_i content _ found _
    refine ⟨rfl, rfl, rfl, ?_, fun _ => id⟩
    have present : u.connectomeFile corticalArea ∈ u.files.map (·.1) :=
      (lookup_isSome_iff_mem _ _).mp (by simp [found])
    rw [map_fst_dictSet, if_pos]
    obtain ⟨entry, member, same⟩ := List.mem_map.mp present
    exact List.any_eq_true.mpr ⟨entry, member, by simp [same]⟩

theorem keeps_saveAll (u : Universal) (areas : List String) : Keeps u (u.saveAll areas).1 := by
  induction areas generalizing u with
  | nil => exact .refl u
  | cons corticalArea rest ih =>
    unfold saveAll
    rcases saved : u.saveArea corticalArea with ⟨v, _ | failure⟩
    all_goals have kept := keeps_saveArea u corticalArea
    all_goals rw [saved] at kept
    · exact kept.trans (ih v)
    · exact kept

theorem mem_keys_resetBrain (u : Universal) (area : String) :
    area ∈ u.resetBrain.keys ↔ area ∈ u.keys ∨ area ∈ u.corticalList := by
  unfold resetBrain keys
  generalize u.corticalList = areas
  generalize u.brain = brain
  induction areas generalizing brain with
  | nil => simp
  | cons item rest ih =>
    rw [List.foldl_cons, ih, mem_keys_dictSet]
    simp only [List.mem_cons]
    tauto

theorem mem_keys_loadBrainInMemory (u : Universal) (area : String) :
    area ∈ u.loadBrainInMemory.map (·.1) ↔ area ∈ u.corticalList ∧ u.HasFile area := by
  suffices ∀ (areas : List String) (brain : List (String × AreaData)),
      area ∈ (areas.foldl (fun brain item =>
        match u.files.lookup (u.connectomeFile item) with
        | some data => dictSet brain item data
        | none => brain) brain).map (·.1) ↔ area ∈ brain.map (·.1) ∨ area ∈ areas ∧ u.HasFile area by
    simpa using this u.corticalList []
  intro areas
  induction areas with
  | nil => simp
  | cons item rest ih =>
    intro brain
    rw [List.foldl_cons, ih]
    rcases file : u.files.lookup (u.connectomeFile item) with _ | data
    · have missing : ¬u.HasFile item := fun has =>
        by simpa [file] using (lookup_isSome_iff_mem u.files _).mpr has
      simp only [List.mem_cons]
      constructor
      · tauto
      · rintro (h | ⟨rfl | h, has⟩)
        exacts [.inl h, absurd has missing, .inr ⟨h, has⟩]
    · have has : u.HasFile item := (lookup_isSome_iff_mem u.files _).mp (by simp [file])
      rw [mem_keys_dictSet]
      simp only [List.mem_cons]
      constructor
      · rintro ((h | rfl) | h)
        exacts [.inl h, .inr ⟨.inl rfl, has⟩, .inr ⟨.inr h.1, h.2⟩]
      · rintro (h | ⟨rfl | h, has'⟩)
        exacts [.inl (.inl h), .inl (.inr rfl), .inr ⟨h, has'⟩]

theorem keeps_apply (u : Universal) (op : Op) : Keeps u (u.apply op) := by
  cases op with
  | resetBrain => exact ⟨rfl, rfl, rfl, rfl, fun a m => (mem_keys_resetBrain u a).mpr (.inl m)⟩
  | saveBrainToDisk corticalArea =>
    unfold apply saveBrainToDisk
    dsimp only
    split_ifs
    exacts [keeps_saveArea u corticalArea, keeps_saveAll u _]
  | resetCumulativeCounterInstances =>
    exact ⟨rfl, rfl, rfl, rfl, fun a m => by
      simpa [apply, keys, resetCumulativeCounterInstances, List.map_map, Function.comp_def] using m⟩
  | corticalAreaNeuronCount _ | corticalAreaSynapseCount _ | connectomeNeuronCount
  | connectomeSynapseCount => exact .refl u

theorem keeps_run (u : Universal) (ops : List Op) : Keeps u (u.run ops) := by
  induction ops generalizing u with
  | nil => exact .refl u
  | cons op ops ih => exact (keeps_apply u op).trans (ih _)

theorem lookup_of_mem_keys {u : Universal} {area : String} (key : area ∈ u.keys) :
    ∃ data, u.brain.lookup area = some data :=
  Option.isSome_iff_exists.mp ((lookup_isSome_iff_mem _ _).mpr key)

theorem saveArea_keyError {u : Universal} {corticalArea key : String}
    (failed : (u.saveArea corticalArea).2 = some (.keyError key)) :
    u.HasFile corticalArea ∧ corticalArea ∉ u.keys := by
  unfold saveArea at failed
  dsimp only at failed
  split at failed
  · cases failed
  · rename_i found missing
    refine ⟨(lookup_isSome_iff_mem _ _).mp (by simp [found]), fun key => ?_⟩
    obtain ⟨data, found'⟩ := lookup_of_mem_keys key
    simp [found'] at missing
  · cases failed

theorem saveAll_no_keyError (u : Universal) (areas : List String)
    (keyed : ∀ area ∈ areas, u.HasFile area → area ∈ u.keys) (key : String) :
    (u.saveAll areas).2 ≠ some (.keyError key) := by
  induction areas generalizing u with
  | nil => simp [saveAll]
  | cons corticalArea rest ih =>
    unfold saveAll
    have kept := keeps_saveArea u corticalArea
    rcases saved : u.saveArea corticalArea with ⟨v, _ | failure⟩
    all_goals rw [saved] at kept
    · exact ih v fun area m has =>
        kept.keys area (keyed area (.tail _ m) (kept.hasFile_iff.mp has))
    · dsimp only
      intro failedKey
      obtain ⟨has, missing⟩ := saveArea_keyError (by rw [saved]; exact failedKey)
      exact missing (keyed _ (.head _) has)

theorem foldlM_count_ok (count : String → Except PyError Nat) (areas : List String) (total : Nat)
    (counted : ∀ area ∈ areas, ∃ c, count area = .ok c) :
    ∃ t, areas.foldlM (fun total area => (total + ·) <$> count area) total = .ok t := by
  induction areas generalizing total with
  | nil => exact ⟨total, rfl⟩
  | cons area rest ih =>
    obtain ⟨c, found⟩ := counted area (.head _)
    obtain ⟨t, rest_ok⟩ := ih (total + c) fun a m => counted a (.tail _ m)
    exact ⟨t, by simpa [List.foldlM_cons, found] using rest_ok⟩

theorem counts_ok {u : Universal} (keyed : ∀ area ∈ u.corticalAreas, area ∈ u.keys) :
    (∃ total, u.connectomeNeuronCount = .ok total) ∧ ∃ total, u.connectomeSynapseCount = .ok total := by
  refine ⟨foldlM_count_ok _ _ 0 fun area m => ?_, foldlM_count_ok _ _ 0 fun area m => ?_⟩
  all_goals obtain ⟨data, found⟩ := lookup_of_mem_keys (keyed area m)
  · exact ⟨data.length, by simp [corticalAreaNeuronCount, found]⟩
  · exact ⟨_, by simp [corticalAreaSynapseCount, found]; rfl⟩

theorem mem_keys_load (blueprint : List String) (connectomePath : String)
    (files : List (String × AreaData)) (area : String) :
    area ∈ (load blueprint connectomePath files).keys ↔
      area ∈ blueprint ∧ (load blueprint connectomePath files).HasFile area :=
  mem_keys_loadBrainInMemory ⟨blueprint, connectomePath, files, [], []⟩ area

theorem run_append (u : Universal) (pre post : List Op) :
    u.run (pre ++ post) = (u.run pre).run post :=
  List.foldl_append _ _ _ _

theorem mem_keys_run_of_reset (u : Universal) {ops : List Op} (reset : .resetBrain ∈ ops)
    {area : String} (listed : area ∈ u.corticalList) : area ∈ (u.run ops).keys := by
  obtain ⟨pre, post, rfl⟩ := List.append_of_mem reset
  rw [run_append]
  show area ∈ ((u.run pre).resetBrain.run post).keys
  refine (keeps_run _ post).keys area ((mem_keys_resetBrain _ area).mpr (.inr ?_))
  rwa [corticalList, (keeps_run u pre).blueprint]

theorem brain_covers_run (blueprint : List String) (connectomePath : String)
    (files : List (String × AreaData)) (ops : List Op) :
    let u := (load blueprint connectomePath files).run ops
    (∀ area ∈ u.corticalList, u.HasFile area ∨ .resetBrain ∈ ops → area ∈ u.keys) ∧
    (∀ key, (u.saveBrainToDisk "all").2 ≠ some (.keyError key)) ∧
    ((∀ area ∈ u.corticalList, u.HasFile area) ∨ .resetBrain ∈ ops →
      (∃ total, u.connectomeNeuronCount = .ok total) ∧ ∃ total, u.connectomeSynapseCount = .ok total) := by
  intro u
  have kept := keeps_run (load blueprint connectomePath files) ops
  have listed : u.corticalList = blueprint := kept.blueprint
  have covered : ∀ area ∈ u.corticalList, u.HasFile area ∨ .resetBrain ∈ ops → area ∈ u.keys := by
    rintro area m (has | reset)
    · exact kept.keys area ((mem_keys_load ..).mpr ⟨listed ▸ m, kept.hasFile_iff.mp has⟩)
    · exact mem_keys_run_of_reset _ reset (listed ▸ m)
  have areas : u.corticalAreas = u.corticalList := kept.corticalAreas.trans listed.symm
  refine ⟨covered, fun key => ?_, fun cond => counts_ok fun area m => covered area (areas ▸ m) ?_⟩
  · simpa [saveBrainToDisk] using saveAll_no_keyError u _ (fun area m has => covered area m (.inl has)) key
  · exact cond.imp (fun all => all area (areas ▸ m)) id

theorem brain_covers_run_after_reset :
    let u := (load ["vision_v1"] "./connectome/" []).run [.resetBrain]
    "vision_v1" ∈ u.corticalList ∧ "vision_v1" ∈ u.keys :=
  ⟨by decide, (brain_covers_run ["vision_v1"] "./connectome/" [] [.resetBrain]).1 "vision_v1"
    (by decide) (.inr (by decide))⟩

theorem connectomeNeuronCount_of_missing_file :
    let u := load ["vision_v1"] "./connectome/" []
    "vision_v1" ∈ u.corticalList ∧ "vision_v1" ∉ u.keys ∧
      u.connectomeNeuronCount = .error (.keyError "vision_v1") :=
  ⟨by decide, by decide, rfl⟩

end Universal
end Feagi.Brain

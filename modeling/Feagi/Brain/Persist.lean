import Feagi.Brain.BrainKeys

/-!
# Saving the connectome and loading it back

`load_brain_in_memory` reads, for each blueprint area with a connectome file, the file into
`brain[area]`; `save_brain_to_disk()` writes `brain[area]` into the file of each blueprint area,
and raises at the first area with no file or no entry in `brain`. A save that raised nothing
is read back by the next load, on every blueprint area.
-/

namespace Feagi.Brain

section Dict

variable {β : Type}

theorem lookup_cons_eq (key area : String) (value : β) (rest : List (String × β)) :
    ((key, value) :: rest).lookup area = if area = key then some value else rest.lookup area := by
  by_cases same : area = key
  · subst same
    rw [List.lookup_cons, beq_self_eq_true, if_pos rfl]
  · rw [List.lookup_cons, beq_false_of_ne same, if_neg same]

theorem lookup_map_setting (key area : String) (value : β) : ∀ d : List (String × β),
    (d.map fun entry => if entry.1 = key then (key, value) else entry).lookup area =
      if area = key then (if d.any (·.1 == key) then some value else none) else d.lookup area
  | [] => by simp
  | (k, v) :: d => by
    have rest := lookup_map_setting key area value d
    by_cases set : k = key
    · subst set
      by_cases same : area = k <;> simp [lookup_cons_eq, same, rest]
    · by_cases same : area = key
      · subst same
        simp only [List.map_cons, List.any_cons, if_neg set, lookup_cons_eq, if_neg (Ne.symm set),
          rest, if_true]
        have unset : (k == area) = false := beq_false_of_ne set
        simp only [unset, Bool.false_or]
      · simp [lookup_cons_eq, set, same, rest]

theorem lookup_eq_none_of_not_any {d : List (String × β)} {area : String}
    (absent : ¬(d.any (·.1 == area)) = true) : d.lookup area = none := by
  cases found : d.lookup area with
  | none => rfl
  | some value =>
    have present : (d.lookup area).isSome := by rw [found]; rfl
    obtain ⟨entry, mem, same⟩ := List.lookup_isSome_iff.mp present
    rw [beq_iff_eq] at same
    exact absent.elim (List.any_eq_true.mpr ⟨entry, mem, by simp [same]⟩)

theorem lookup_dictSet (d : List (String × β)) (key area : String) (value : β) :
    (dictSet d key value).lookup area = if area = key then some value else d.lookup area := by
  unfold dictSet
  split_ifs with present same same
  · rw [lookup_map_setting, if_pos same, if_pos present]
  · rw [lookup_map_setting, if_neg same]
  · subst same
    rw [List.lookup_append, lookup_eq_none_of_not_any present]
    simp [lookup_cons_eq]
  · rw [List.lookup_append]
    cases d.lookup area <;> simp [lookup_cons_eq, same]

end Dict

namespace Universal

theorem connectomeFile_injective (u : Universal) {a b : String}
    (same : u.connectomeFile a = u.connectomeFile b) : a = b := by
  have data := congrArg String.data same
  simp only [connectomeFile, String.data_append] at data
  exact String.ext (List.append_cancel_left (List.append_cancel_right data))

theorem lookup_foldl_load (u : Universal) (area : String)
    (step : List (String × AreaData) → String → List (String × AreaData))
    (keyed : ∀ brain item, (step brain item).lookup area =
      if area = item then (u.files.lookup (u.connectomeFile area)).or (brain.lookup area)
      else brain.lookup area) :
    ∀ (items : List String) (brain : List (String × AreaData)),
    (items.foldl step brain).lookup area =
      if area ∈ items then (u.files.lookup (u.connectomeFile area)).or (brain.lookup area)
      else brain.lookup area
  | [], brain => by simp
  | item :: items, brain => by
    simp only [List.foldl_cons, lookup_foldl_load u area step keyed items, keyed, List.mem_cons]
    by_cases same : area = item
    · cases u.files.lookup (u.connectomeFile area) <;> simp [same]
    · simp [same]

theorem lookup_loadBrainInMemory (u : Universal) (area : String) :
    u.loadBrainInMemory.lookup area =
      if area ∈ u.corticalList then u.files.lookup (u.connectomeFile area) else none := by
  rw [loadBrainInMemory, lookup_foldl_load u area _ fun brain item => ?_]
  · simp
  · dsimp only
    split
    · rename_i data found
      rw [lookup_dictSet]
      split_ifs with same
      · rw [same, found]; rfl
      · rfl
    · rename_i absent
      split_ifs with same
      · rw [same, absent]; rfl
      · rfl

theorem saveArea_ok {u v : Universal} {corticalArea : String}
    (saved : u.saveArea corticalArea = (v, none)) :
    ∃ data, u.brain.lookup corticalArea = some data ∧
      v = { u with files := dictSet u.files (u.connectomeFile corticalArea) data } := by
  unfold saveArea at saved
  dsimp only at saved
  split at saved
  · cases saved
  · cases saved
  · rename_i _ data _ found
    cases saved
    exact ⟨data, found, rfl⟩

theorem saveAll_ok : ∀ {u v : Universal} {areas : List String}, u.saveAll areas = (v, none) →
    v.brain = u.brain ∧ v.blueprint = u.blueprint ∧ v.connectomePath = u.connectomePath ∧
      (∀ area ∈ areas, v.files.lookup (u.connectomeFile area) = u.brain.lookup area) ∧
      ∀ path, (∀ area ∈ areas, path ≠ u.connectomeFile area) → v.files.lookup path = u.files.lookup path
  | u, v, [], saved => by
    cases saved
    exact ⟨rfl, rfl, rfl, nofun, fun _ _ => rfl⟩
  | u, v, corticalArea :: areas, saved => by
    rw [saveAll] at saved
    rcases first : u.saveArea corticalArea with ⟨w, _ | error⟩
    · rw [first] at saved
      obtain ⟨data, found, rfl⟩ := saveArea_ok first
      obtain ⟨brain, blueprint, path, written, kept⟩ := saveAll_ok saved
      have file : ∀ (files : List (String × AreaData)) area,
          connectomeFile { u with files := files } area = u.connectomeFile area := fun _ _ => rfl
      simp only [file] at written kept
      refine ⟨brain, blueprint, path, fun area mem => ?_, fun p fresh => ?_⟩
      · by_cases later : area ∈ areas
        · exact written area later
        · obtain rfl : area = corticalArea := (List.mem_cons.mp mem).resolve_right later
          rw [kept _ fun other mem same => later (by rwa [u.connectomeFile_injective same]),
            lookup_dictSet, if_pos rfl, found]
      · rw [kept p fun area mem => fresh area (List.mem_cons_of_mem _ mem), lookup_dictSet,
          if_neg (fresh corticalArea (List.mem_cons_self _ _))]
    · rw [first] at saved
      cases saved

theorem load_saveBrainToDisk (u : Universal) (saved : (u.saveBrainToDisk "all").2 = none)
    (area : String) :
    (Universal.load u.blueprint u.connectomePath (u.saveBrainToDisk "all").1.files).brain.lookup area =
      if area ∈ u.blueprint then u.brain.lookup area else none := by
  have all : u.saveBrainToDisk "all" = u.saveAll u.corticalList := if_neg (not_not.mpr rfl)
  rw [all] at saved ⊢
  obtain ⟨-, -, -, written, -⟩ := saveAll_ok (Prod.ext rfl saved : u.saveAll u.corticalList = (_, none))
  simp only [load, lookup_loadBrainInMemory, corticalList]
  split_ifs with mem
  · exact written area mem
  · rfl

theorem lookup_resetBrain (u : Universal) (area : String) :
    u.resetBrain.brain.lookup area = if area ∈ u.corticalList then some [] else u.brain.lookup area := by
  unfold resetBrain
  dsimp only
  generalize u.brain = brain
  induction u.corticalList generalizing brain with
  | nil => simp
  | cons item items ih =>
    rw [List.foldl_cons, ih, lookup_dictSet]
    by_cases same : area = item <;> simp [same]

theorem foldlM_count_zero (count : String → Except PyError Nat) (total : Nat) :
    ∀ areas : List String, (∀ area ∈ areas, count area = .ok 0) →
      areas.foldlM (fun total area => (total + ·) <$> count area) total = .ok total
  | [], _ => rfl
  | area :: areas, zero => by
    rw [List.foldlM_cons, zero area (List.mem_cons_self _ _)]
    exact foldlM_count_zero count total areas fun a m => zero a (List.mem_cons_of_mem _ m)

theorem counts_run_resetBrain (blueprint : List String) (connectomePath : String)
    (files : List (String × AreaData)) (ops : List Op) :
    ((load blueprint connectomePath files).run (ops ++ [.resetBrain])).connectomeNeuronCount = .ok 0 ∧
      ((load blueprint connectomePath files).run (ops ++ [.resetBrain])).connectomeSynapseCount =
        .ok 0 := by
  have kept := keeps_run (load blueprint connectomePath files) ops
  rw [run_append]
  generalize (load blueprint connectomePath files).run ops = u at kept
  rw [show u.run [.resetBrain] = u.resetBrain from rfl]
  have areas : ∀ area ∈ u.corticalAreas, u.resetBrain.brain.lookup area = some [] := fun area m => by
    rw [kept.corticalAreas] at m
    rw [lookup_resetBrain, corticalList, kept.blueprint]
    exact if_pos m
  exact ⟨foldlM_count_zero _ 0 _ fun area m => by simp [corticalAreaNeuronCount, areas area m],
    foldlM_count_zero _ 0 _ fun area m => by simp [corticalAreaSynapseCount, areas area m]⟩

theorem lookup_map_snd {β γ : Type} (g : β → γ) (area : String) :
    ∀ d : List (String × β), (d.map fun entry => (entry.1, g entry.2)).lookup area =
      (d.lookup area).map g
  | [] => rfl
  | (key, value) :: d => by
    rw [List.map_cons, lookup_cons_eq, lookup_cons_eq, lookup_map_snd g area d]
    split_ifs <;> rfl

theorem counts_resetCumulativeCounterInstances (u : Universal) :
    u.resetCumulativeCounterInstances.connectomeNeuronCount = u.connectomeNeuronCount ∧
      u.resetCumulativeCounterInstances.connectomeSynapseCount = u.connectomeSynapseCount := by
  have lookup (area : String) : u.resetCumulativeCounterInstances.brain.lookup area =
      (u.brain.lookup area).map fun data =>
        data.map fun (id, neuron) => (id, { neuron with cumulativeFireCountInst := 0 }) :=
    lookup_map_snd _ area u.brain
  have neurons : u.resetCumulativeCounterInstances.corticalAreaNeuronCount = u.corticalAreaNeuronCount :=
    funext fun area => by
      unfold corticalAreaNeuronCount
      rw [lookup]
      cases u.brain.lookup area <;> simp
  have synapses : u.resetCumulativeCounterInstances.corticalAreaSynapseCount =
      u.corticalAreaSynapseCount := funext fun area => by
    unfold corticalAreaSynapseCount
    rw [lookup]
    cases u.brain.lookup area with
    | none => rfl
    | some data => simp only [Option.map_some', List.foldl_map]
  exact ⟨by rw [connectomeNeuronCount, neurons]; rfl, by rw [connectomeSynapseCount, synapses]; rfl⟩

end Universal

/-- One area `v1` with one neuron, saved under `connectome/`. -/
def savedV1 : Universal :=
  ⟨["v1"], "connectome/", [("connectome/v1.json", [])], [("v1", [("n1", ⟨["n2"], 3⟩)])], ["v1"]⟩

theorem load_saveBrainToDisk_of_savedV1 :
    (savedV1.saveBrainToDisk "all").2 = none ∧
      (Universal.load savedV1.blueprint savedV1.connectomePath
          (savedV1.saveBrainToDisk "all").1.files).brain.lookup "v1" =
        if "v1" ∈ savedV1.blueprint then savedV1.brain.lookup "v1" else none :=
  ⟨by decide, Universal.load_saveBrainToDisk savedV1 (by decide) "v1"⟩

end Feagi.Brain

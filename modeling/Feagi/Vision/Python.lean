import Feagi.Vision.Float64
import Mathlib.Data.List.ReduceOption
import Mathlib.Data.List.Nodup

/-!
# Python and numpy values of `PUs/IPU_vision.py`

The exceptions the vision functions raise, dicts with string keys (each key once, in
insertion order), list indexing that raises `IndexError`, and the numpy calls the filters
make: `np.sum`, `np.asarray(rows, dtype=np.int)` (rows of unequal length raise `ValueError`)
and `np.amax`. Python floats are exact rationals; `int64` and `float64` are in `Float64`.
The facts about `mapM` in `Except` let a proof move an effectful loop to one shape.
-/

namespace Feagi.Vision

inductive PyException where
  | keyError (key : String)
  | indexError
  | valueError
  | typeError
  | overflowError
  | zeroDivisionError
  deriving DecidableEq, Repr

/-- A dict with string keys, in insertion order. -/
structure Dict (β : Type) where
  entries : List (String × β)
  nodup : (entries.map Prod.fst).Nodup

namespace Dict

variable {β : Type}

def keys (d : Dict β) : List String := d.entries.map Prod.fst

def get? (d : Dict β) (key : String) : Option β := d.entries.lookup key

/-- `d[key]`. -/
def get (d : Dict β) (key : String) : Except PyException β :=
  match d.get? key with
  | some value => .ok value
  | none => .error (.keyError key)

theorem get_of_get? {d : Dict β} {key : String} {value : β} (found : d.get? key = some value) :
    d.get key = .ok value := by
  simp [get, found]

theorem get?_of_get {d : Dict β} {key : String} {value : β} (found : d.get key = .ok value) :
    d.get? key = some value := by
  unfold get at found
  split at found <;> cases found
  assumption

theorem get?_of_mem {d : Dict β} {entry : String × β} (mem : entry ∈ d.entries) :
    d.get? entry.1 = some entry.2 := by
  obtain ⟨entries, nodup⟩ := d
  simp only [get?]
  induction entries with
  | nil => cases mem
  | cons head entries ih =>
    obtain ⟨fresh, nodup⟩ := List.nodup_cons.mp nodup
    rcases List.mem_cons.mp mem with rfl | mem
    · exact List.lookup_cons_self
    · have ne : (entry.1 == head.1) = false :=
        beq_false_of_ne fun e => fresh (e ▸ List.mem_map_of_mem Prod.fst mem)
      rw [List.lookup_cons, ne]
      exact ih nodup mem

end Dict

abbrev Matrix := List (List ℚ)

/-- A `size × size` matrix. -/
def IsSquare {α : Type} (size : Nat) (m : List (List α)) : Prop :=
  m.length = size ∧ ∀ row ∈ m, row.length = size

instance {α : Type} (size : Nat) (m : List (List α)) : Decidable (IsSquare size m) :=
  inferInstanceAs (Decidable (_ ∧ _))

/-- `xs[i]`. -/
def pyIndex {α : Type} (xs : List α) (i : Nat) : Except PyException α :=
  match xs[i]? with
  | some x => .ok x
  | none => .error .indexError

theorem pyIndex_of_lt {α : Type} {xs : List α} {i : Nat} (h : i < xs.length) :
    pyIndex xs i = .ok xs[i] := by
  simp [pyIndex, List.getElem?_eq_getElem h]

/-- `np.sum(m)`. -/
def npSum (m : Matrix) : ℚ := m.foldl (fun total row => row.foldl (· + ·) total) 0

/-- `a / float(b)`: true division, raising `ZeroDivisionError` when `b` is `0`. -/
def pyTrueDiv (a b : ℚ) : Except PyException ℚ :=
  if b = 0 then .error .zeroDivisionError else .ok (a / b)

/-- `np.asarray(rows, dtype=np.int)` of a list of rows: rows of unequal length raise. -/
def npAsarray {α : Type} (rows : List (List α)) : Except PyException (List (List α)) :=
  if rows.all (·.length == (rows.headD []).length) then .ok rows else .error .valueError

theorem npAsarray_of_rectangular {α : Type} {rows : List (List α)} (width : Nat)
    (rectangular : ∀ row ∈ rows, row.length = width) : npAsarray rows = .ok rows := by
  cases rows with
  | nil => rfl
  | cons row rows =>
    simp only [npAsarray, List.headD_cons, rectangular row (List.mem_cons_self row rows)]
    rw [if_pos (List.all_eq_true.mpr fun r mem => by simp [rectangular r mem])]

theorem npAsarray_ragged {α : Type} {rows : List (List α)} {row : List α} (mem : row ∈ rows)
    (ragged : row.length ≠ (rows.headD []).length) : npAsarray rows = .error .valueError := by
  rw [npAsarray, if_neg]
  simp only [List.all_eq_true, beq_iff_eq, not_forall]
  exact ⟨row, mem, ragged⟩

/-- `max(values)` of the values `first :: rest`: the running maximum is replaced only by a
strictly larger value. -/
def pyMax {γ : Type} [LinearOrder γ] (first : γ) (rest : List γ) : γ :=
  rest.foldl (fun m v => if m < v then v else m) first

/-- `np.amax(a)`: an empty array raises. -/
def npAmax (rows : List (List Int)) : Except PyException Int :=
  match rows.flatten with
  | [] => .error .valueError
  | v :: vs => .ok (pyMax v vs)

/-- `np.shape(a)[1]` of a two-dimensional array. -/
def npShape1 {α : Type} (rows : List (List α)) : Except PyException Nat :=
  match rows with
  | [] => .error .indexError
  | row :: _ => .ok row.length

section RunningMax

variable {γ : Type} [LinearOrder γ]

theorem le_pyMax (first : γ) (rest : List γ) : ∀ v ∈ first :: rest, v ≤ pyMax first rest := by
  induction rest generalizing first with
  | nil => simp [pyMax]
  | cons w rest ih =>
    have step := ih (if first < w then w else first)
    have first_le : first ≤ (if first < w then w else first) := by
      split_ifs with h
      exacts [h.le, le_rfl]
    have w_le : w ≤ (if first < w then w else first) := by
      split_ifs with h
      exacts [le_rfl, not_lt.mp h]
    simp only [List.mem_cons, forall_eq_or_imp] at step ⊢
    exact ⟨first_le.trans step.1, w_le.trans step.1, step.2⟩

theorem pyMax_mem (first : γ) (rest : List γ) : pyMax first rest ∈ first :: rest := by
  induction rest generalizing first with
  | nil => simp [pyMax]
  | cons w rest ih =>
    rcases List.mem_cons.mp (ih (if first < w then w else first)) with e | mem
    · simp only [pyMax, List.foldl_cons] at e ⊢
      rw [e]
      split_ifs <;> simp
    · exact List.mem_cons_of_mem _ (List.mem_cons_of_mem _ mem)

end RunningMax

theorem npAmax_spec {rows : List (List Int)} (nonempty : rows.flatten ≠ []) :
    ∃ imageMaxValue, npAmax rows = .ok imageMaxValue ∧
      (∀ v ∈ rows.flatten, v ≤ imageMaxValue) ∧ imageMaxValue ∈ rows.flatten := by
  unfold npAmax
  obtain ⟨v, vs, values⟩ := List.exists_cons_of_ne_nil nonempty
  rw [values]
  exact ⟨_, rfl, le_pyMax v vs, pyMax_mem v vs⟩

/-! ## `mapM` in `Except` -/

section MapM

variable {ε α β γ : Type}

@[simp] theorem ok_bind (a : α) (f : α → Except ε β) : (Except.ok a >>= f) = f a := rfl

@[simp] theorem error_bind (e : ε) (f : α → Except ε β) : (Except.error e >>= f) = .error e := rfl

@[simp] theorem map_ok (a : α) (f : α → β) : (f <$> Except.ok a : Except ε β) = .ok (f a) := rfl

@[simp] theorem map_error (e : ε) (f : α → β) : (f <$> Except.error e : Except ε β) = .error e := rfl

theorem bind_ok_comp (x : Except ε α) (f : α → β) : (x >>= fun a => .ok (f a)) = f <$> x := by
  cases x <;> rfl

theorem bind_eq_ok {x : Except ε α} {f : α → Except ε β} {b : β} (h : (x >>= f) = .ok b) :
    ∃ a, x = .ok a ∧ f a = .ok b := by
  cases x with
  | error e => cases h
  | ok a => exact ⟨a, rfl, h⟩

theorem map_eq_ok {x : Except ε α} {f : α → β} {b : β} (h : f <$> x = .ok b) :
    ∃ a, x = .ok a ∧ f a = b := by
  cases x with
  | error e => cases h
  | ok a => exact ⟨a, rfl, Except.ok.inj h⟩

theorem mapM_ok_length {f : α → Except ε β} :
    ∀ {l : List α} {r : List β}, l.mapM f = .ok r → r.length = l.length
  | [], r, h => by cases h; rfl
  | a :: l, r, h => by
    rw [List.mapM_cons] at h
    cases fa : f a <;> cases fl : l.mapM f <;> simp only [fa, fl] at h <;> cases h
    simp [mapM_ok_length fl]

theorem mapM_ok_mem {f : α → Except ε β} :
    ∀ {l : List α} {r : List β}, l.mapM f = .ok r → ∀ b ∈ r, ∃ a ∈ l, f a = .ok b
  | [], r, h => by cases h; simp
  | a :: l, r, h => by
    rw [List.mapM_cons] at h
    cases fa : f a <;> cases fl : l.mapM f <;> simp only [fa, fl] at h <;> cases h
    rintro b (_ | ⟨_, mem⟩)
    · exact ⟨a, List.mem_cons_self a l, fa⟩
    · obtain ⟨a', mem', e⟩ := mapM_ok_mem fl b mem
      exact ⟨a', List.mem_cons_of_mem a mem', e⟩

theorem mapM_ok_getElem {f : α → Except ε β} (d : β) :
    ∀ {l : List α} {r : List β}, l.mapM f = .ok r → ∀ (i : Nat) (hi : i < l.length), f l[i] = .ok (r.getD i d)
  | [], _, _, _, hi => absurd hi (Nat.not_lt_zero _)
  | a :: l, r, h, i, hi => by
    rw [List.mapM_cons] at h
    cases fa : f a <;> cases fl : l.mapM f <;> simp only [fa, fl] at h <;> cases h
    cases i with
    | zero => exact fa
    | succ i => simpa using mapM_ok_getElem d fl i (by simpa using hi)

theorem mapM_congr {f g : α → Except ε β} :
    ∀ {l : List α}, (∀ a ∈ l, f a = g a) → l.mapM f = l.mapM g
  | [], _ => rfl
  | a :: l, same => by
    simp only [List.mapM_cons, same a (List.mem_cons_self a l),
      mapM_congr fun b mem => same b (List.mem_cons_of_mem a mem)]

theorem mapM_map_result (f : α → Except ε β) (h : β → γ) :
    ∀ l : List α, l.mapM (fun a => h <$> f a) = List.map h <$> l.mapM f
  | [] => rfl
  | a :: l => by
    simp only [List.mapM_cons, mapM_map_result f h l]
    cases f a <;> cases l.mapM f <;> rfl

@[simp] theorem pure_eq_ok (a : α) : (pure a : Except ε α) = .ok a := rfl

theorem mapM_pure (h : α → β) : ∀ l : List α, l.mapM (fun a => (Except.ok (h a) : Except ε β)) = .ok (l.map h)
  | [] => rfl
  | a :: l => by simp only [List.mapM_cons, mapM_pure h l]; rfl

theorem mapM_map_arg (f : β → Except ε γ) (g : α → β) :
    ∀ l : List α, (l.map g).mapM f = l.mapM (fun a => f (g a))
  | [] => rfl
  | a :: l => by simp only [List.map_cons, List.mapM_cons, mapM_map_arg f g l]

theorem foldlM_eq_ok {f : β → α → Except ε β} (g : β → α → β)
    (step : ∀ acc a, f acc a = .ok (g acc a)) :
    ∀ (l : List α) (init : β), l.foldlM f init = .ok (l.foldl g init)
  | [], _ => rfl
  | a :: l, init => by rw [List.foldlM_cons, step, ok_bind]; exact foldlM_eq_ok g step l _

theorem bind_congr_ok {x : Except ε α} {f g : α → Except ε β} (agree : ∀ r, x = .ok r → f r = g r) :
    x >>= f = x >>= g := by
  cases x with
  | error e => rfl
  | ok r => exact agree r rfl

theorem mapM_enumFrom_fst (f : Nat → Except ε β) :
    ∀ (l : List α) (start : Nat),
      (l.enumFrom start).mapM (fun p => f p.1) = (List.range' start l.length).mapM f
  | [], _ => rfl
  | a :: l, start => by
    simp only [List.enumFrom_cons, List.mapM_cons, List.length_cons, List.range'_succ,
      mapM_enumFrom_fst f l (start + 1)]

end MapM

/-! ## `if seen.count(item) == 0: seen.append(item)`

The loop keeps the first occurrence of each item: it is the loop of `List.eraseDups`. -/

section FirstOccurrence

variable {α : Type} [BEq α] [LawfulBEq α]

theorem eraseDups_loop_eq_foldl :
    ∀ (items acc : List α), List.eraseDups.loop items acc =
      items.foldl (fun seen item => if seen.count item = 0 then seen ++ [item] else seen) acc.reverse
  | [], _ => rfl
  | item :: items, acc => by
    by_cases seen : item ∈ acc
    · have count : acc.reverse.count item ≠ 0 := by simpa [List.count_eq_zero] using seen
      simp only [List.eraseDups.loop, List.elem_eq_true_of_mem seen, List.foldl_cons, count, if_false]
      exact eraseDups_loop_eq_foldl items acc
    · have fresh : acc.elem item = false := by simpa [List.elem_iff] using seen
      have count : acc.reverse.count item = 0 := by simpa [List.count_eq_zero] using seen
      simp only [List.eraseDups.loop, fresh, List.foldl_cons, count, if_true]
      rw [eraseDups_loop_eq_foldl items (item :: acc), List.reverse_cons]

theorem nodup_foldl_append_new : ∀ (items seen : List α), seen.Nodup →
    (items.foldl (fun seen item => if seen.count item = 0 then seen ++ [item] else seen) seen).Nodup
  | [], _, nodup => nodup
  | item :: items, seen, nodup => by
    refine nodup_foldl_append_new items _ ?_
    dsimp only
    split_ifs with fresh
    · exact nodup.append (List.nodup_singleton item)
        (List.disjoint_singleton.mpr (List.count_eq_zero.mp fresh))
    · exact nodup

theorem mem_foldl_append_new {x : α} : ∀ (items seen : List α),
    x ∈ items.foldl (fun seen item => if seen.count item = 0 then seen ++ [item] else seen) seen ↔
      x ∈ seen ∨ x ∈ items
  | [], _ => by simp
  | item :: items, seen => by
    rw [List.foldl_cons, mem_foldl_append_new items]
    split_ifs with fresh
    · simp only [List.mem_append, List.mem_cons, List.not_mem_nil, false_or, or_assoc]
    · have present : item ∈ seen := by simpa [List.count_eq_zero] using fresh
      simp only [List.mem_cons]
      constructor
      · exact fun h => h.elim .inl (.inr ∘ .inr)
      · rintro (h | rfl | h)
        exacts [.inl h, .inl present, .inr h]

theorem nodup_eraseDups (items : List α) : items.eraseDups.Nodup := by
  rw [List.eraseDups, eraseDups_loop_eq_foldl]
  exact nodup_foldl_append_new items [] List.nodup_nil

theorem mem_eraseDups {x : α} {items : List α} : x ∈ items.eraseDups ↔ x ∈ items := by
  rw [List.eraseDups, eraseDups_loop_eq_foldl, mem_foldl_append_new]
  simp

end FirstOccurrence

theorem all_map_apply {α β : Type} (f : α → β) (p : β → Bool) :
    ∀ l : List α, (l.map f).all p = l.all fun a => p (f a)
  | [] => rfl
  | a :: l => by simp only [List.map_cons, List.all_cons, all_map_apply f p l]

theorem find?_congr {α : Type} {p q : α → Bool} :
    ∀ {l : List α}, (∀ a ∈ l, p a = q a) → l.find? p = l.find? q
  | [], _ => rfl
  | a :: l, same => by
    simp only [List.find?_cons, same a (List.mem_cons_self a l),
      find?_congr fun b mem => same b (List.mem_cons_of_mem a mem)]

end Feagi.Vision

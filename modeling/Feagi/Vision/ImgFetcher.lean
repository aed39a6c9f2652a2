import Feagi.Vision.Mnist
import Feagi.Vision.Python

/-!
# Fetching an image of a given digit

`MNIST.mnist_img_fetcher(num)` draws indices of `mnist_array` until the item it reads is
labelled `num`: `random.randrange(10, len(self.mnist_array), 1)` with the switch
`ipu_vision_dynamic_img_fetch` on, an entry of `hand_picked_list` otherwise. The random module
is a stream of draws, draw `k` of `random.randrange(start, stop)` being
`start + draws k % (stop - start)`. The loop has no bound: it runs on fuel, and `none` means
that it has not stopped yet.
-/

namespace Feagi.Vision
namespace MNIST

variable {α β : Type}

/-- `random.randrange(start, stop)` at draw `k` of the stream `draws`. -/
def randrange (draws : Nat → Nat) (k start stop : Nat) : Except PyException Nat :=
  if start < stop then .ok (start + draws k % (stop - start)) else .error .valueError

/-- `hand_picked_list`. -/
def handPickedList : List Nat :=
  [33485, 37518, 55170, 30273, 58049, 40258, 45668, 20162, 28940, 35002,
    18896, 46916, 9054, 37745, 21653, 21883, 27934, 7446, 35120, 11015]

/-- The index a pass draws: `random.randrange(10, len(self.mnist_array), 1)`, or
`hand_picked_list[random.randrange(len(hand_picked_list))]`. -/
def pickIndex (self : MNIST α β) (dynamic : Bool) (draws : Nat → Nat) (k : Nat) :
    Except PyException Nat :=
  if dynamic then randrange draws k 10 self.mnistArray.length
  else randrange draws k 0 handPickedList.length >>= pyIndex handPickedList

/-- One pass of the `while` loop at draw `k`: `img_lbl, img_data = self.mnist_array[index]`. -/
def fetchPass (self : MNIST α β) (dynamic : Bool) (draws : Nat → Nat) (k : Nat) :
    Except PyException (α × β) :=
  pickIndex self dynamic draws k >>= pyIndex self.mnistArray

/-- `while img_lbl != int(num)` from draw `k`, with `fuel` passes left. -/
def fetchLoop [DecidableEq α] (self : MNIST α β) (dynamic : Bool) (draws : Nat → Nat) (num : α) :
    Nat → Nat → Option (Except PyException (β × α))
  | 0, _ => none
  | fuel + 1, k =>
    match fetchPass self dynamic draws k with
    | .error e => some (.error e)
    | .ok (imgLbl, imgData) =>
      if imgLbl = num then some (.ok (imgData, imgLbl))
      else fetchLoop self dynamic draws num fuel (k + 1)

/-- `MNIST.mnist_img_fetcher(num)`, with `dynamic` the switch `ipu_vision_dynamic_img_fetch` and
`num` already converted by `int`. The first pass always runs: `img_lbl = ''` is no label. -/
def mnistImgFetcher [DecidableEq α] (self : MNIST α β) (dynamic : Bool) (draws : Nat → Nat)
    (num : α) (fuel : Nat) : Option (Except PyException (β × α)) :=
  fetchLoop self dynamic draws num fuel 0

/-- The indices a pass can draw. -/
def Drawable : Bool → Nat → Prop
  | true, index => 10 ≤ index
  | false, index => index ∈ handPickedList

instance : ∀ dynamic index, Decidable (Drawable dynamic index)
  | true, index => inferInstanceAs (Decidable (10 ≤ index))
  | false, index => inferInstanceAs (Decidable (index ∈ handPickedList))

/-- Every pass reads an image: `mnist_array` reaches past index `10`, or past every hand-picked
index. -/
def FetchReads (self : MNIST α β) : Bool → Prop
  | true => 10 < self.mnistArray.length
  | false => ∀ index ∈ handPickedList, index < self.mnistArray.length

instance (self : MNIST α β) : ∀ dynamic, Decidable (self.FetchReads dynamic)
  | true => inferInstanceAs (Decidable (10 < _))
  | false => inferInstanceAs (Decidable (∀ index ∈ handPickedList, _))

theorem pyIndex_eq_ok {γ : Type} {xs : List γ} {i : Nat} {x : γ} :
    pyIndex xs i = .ok x ↔ xs[i]? = some x := by
  unfold pyIndex
  cases xs[i]? <;> simp

/-! ## One pass -/

section Pass

variable {self : MNIST α β} {dynamic : Bool} {draws : Nat → Nat} {k : Nat}

theorem pickIndex_drawable {index : Nat} (picked : pickIndex self dynamic draws k = .ok index) :
    Drawable dynamic index := by
  cases dynamic with
  | false =>
    obtain ⟨selected, -, found⟩ := bind_eq_ok picked
    obtain ⟨h, rfl⟩ := List.getElem?_eq_some_iff.mp (pyIndex_eq_ok.mp found)
    exact List.getElem_mem h
  | true =>
    simp only [pickIndex, randrange, if_true] at picked
    split_ifs at picked
    cases picked
    exact Nat.le_add_right _ _

theorem pickIndex_of_drawable {index : Nat} (drawable : Drawable dynamic index)
    (inArray : index < self.mnistArray.length) :
    ∃ draws : Nat → Nat, pickIndex self dynamic draws k = .ok index := by
  cases dynamic with
  | false =>
    obtain ⟨j, h, rfl⟩ := List.getElem_of_mem drawable
    refine ⟨fun _ => j, ?_⟩
    simp only [pickIndex, randrange, if_neg Bool.false_ne_true,
      if_pos (show 0 < handPickedList.length by decide)]
    rw [ok_bind, Nat.sub_zero, Nat.mod_eq_of_lt h, Nat.zero_add, pyIndex_of_lt h]
  | true =>
    refine ⟨fun _ => index - 10, ?_⟩
    have inRange : 10 < self.mnistArray.length := by simp only [Drawable] at drawable; omega
    simp only [pickIndex, randrange, if_true, if_pos inRange]
    rw [Nat.mod_eq_of_lt (by omega), Nat.add_sub_cancel' drawable]

theorem pickIndex_reads (reads : self.FetchReads dynamic) (draws : Nat → Nat) (k : Nat) :
    ∃ index, index < self.mnistArray.length ∧ pickIndex self dynamic draws k = .ok index := by
  cases dynamic with
  | false =>
    have h : draws k % handPickedList.length < handPickedList.length := Nat.mod_lt _ (by decide)
    refine ⟨_, reads _ (List.getElem_mem h), ?_⟩
    simp only [pickIndex, randrange, if_neg Bool.false_ne_true,
      if_pos (show 0 < handPickedList.length by decide)]
    rw [ok_bind, Nat.zero_add, Nat.sub_zero, pyIndex_of_lt h]
  | true =>
    simp only [FetchReads] at reads
    refine ⟨10 + draws k % (self.mnistArray.length - 10), ?_,
      by simp only [pickIndex, randrange, if_true, if_pos reads]⟩
    have := Nat.mod_lt (draws k) (show 0 < self.mnistArray.length - 10 by omega)
    omega

theorem fetchPass_reads (reads : self.FetchReads dynamic) (draws : Nat → Nat) (k : Nat) :
    ∃ index, ∃ h : index < self.mnistArray.length, Drawable dynamic index ∧
      fetchPass self dynamic draws k = .ok self.mnistArray[index] := by
  obtain ⟨index, h, picked⟩ := pickIndex_reads reads draws k
  refine ⟨index, h, pickIndex_drawable picked, ?_⟩
  rw [fetchPass, picked, ok_bind, pyIndex_of_lt h]

end Pass

/-! ## The loop -/

section Loop

variable [DecidableEq α] {self : MNIST α β} {dynamic : Bool} {draws : Nat → Nat} {num : α}

theorem fetchLoop_returned : ∀ (fuel k : Nat) {img : β} {lbl : α},
    fetchLoop self dynamic draws num fuel k = some (.ok (img, lbl)) →
      lbl = num ∧ ∃ j, fetchPass self dynamic draws j = .ok (lbl, img)
  | 0, _, _, _, returned => nomatch returned
  | fuel + 1, k, img, lbl, returned => by
    rw [fetchLoop] at returned
    rcases pass : fetchPass self dynamic draws k with e | ⟨imgLbl, imgData⟩
    · rw [pass] at returned
      cases returned
    · rw [pass] at returned
      dsimp only at returned
      split_ifs at returned with same
      · obtain ⟨rfl, rfl⟩ : imgData = img ∧ imgLbl = lbl := by simpa using returned
        exact ⟨same, k, pass⟩
      · exact fetchLoop_returned fuel (k + 1) returned

theorem fetchLoop_none
    (misses : ∀ j, ∃ item, fetchPass self dynamic draws j = .ok item ∧ item.1 ≠ num) :
    ∀ fuel k, fetchLoop self dynamic draws num fuel k = none
  | 0, _ => rfl
  | fuel + 1, k => by
    obtain ⟨⟨lbl, img⟩, pass, miss⟩ := misses k
    rw [fetchLoop, pass]
    dsimp only
    rw [if_neg miss]
    exact fetchLoop_none misses fuel (k + 1)

theorem fetchLoop_first {img : β} : ∀ (m fuel k : Nat),
    (∀ j < m, ∃ item, fetchPass self dynamic draws (k + j) = .ok item ∧ item.1 ≠ num) →
    fetchPass self dynamic draws (k + m) = .ok (num, img) → m < fuel →
      fetchLoop self dynamic draws num fuel k = some (.ok (img, num))
  | _, 0, _, _, _, enough => absurd enough (Nat.not_lt_zero _)
  | 0, fuel + 1, k, _, hit, _ => by
    rw [Nat.add_zero] at hit
    rw [fetchLoop, hit]
    exact if_pos rfl
  | m + 1, fuel + 1, k, earlier, hit, enough => by
    obtain ⟨⟨lbl, image⟩, pass, miss⟩ := earlier 0 (Nat.succ_pos m)
    rw [Nat.add_zero] at pass
    rw [fetchLoop, pass]
    dsimp only
    rw [if_neg miss]
    refine fetchLoop_first m fuel (k + 1) (fun j lt => ?_) ?_ (by omega)
    · simpa only [Nat.add_right_comm k 1 j, Nat.add_assoc] using earlier (j + 1) (by omega)
    · simpa only [Nat.add_right_comm k 1 m, Nat.add_assoc] using hit

end Loop

/-! ## What the fetch returns -/

theorem mnistImgFetcher_results [DecidableEq α] (self : MNIST α β) (dynamic : Bool) (num lbl : α)
    (img : β) :
    (∃ draws fuel, self.mnistImgFetcher dynamic draws num fuel = some (.ok (img, lbl))) ↔
      lbl = num ∧ ∃ index, Drawable dynamic index ∧ self.mnistArray[index]? = some (num, img) := by
  constructor
  · rintro ⟨draws, fuel, returned⟩
    obtain ⟨rfl, j, pass⟩ := fetchLoop_returned fuel 0 returned
    obtain ⟨index, picked, read⟩ := bind_eq_ok pass
    exact ⟨rfl, index, pickIndex_drawable picked, pyIndex_eq_ok.mp read⟩
  · rintro ⟨rfl, index, drawable, read⟩
    obtain ⟨inArray, -⟩ := List.getElem?_eq_some_iff.mp read
    obtain ⟨draws, picked⟩ := pickIndex_of_drawable (k := 0) drawable inArray
    have hit : fetchPass self dynamic draws (0 + 0) = .ok (lbl, img) := by
      rw [fetchPass, picked, ok_bind, pyIndex_eq_ok.mpr read]
    exact ⟨draws, 1, fetchLoop_first 0 1 0 nofun hit Nat.one_pos⟩

theorem mnistImgFetcher_never_returns [DecidableEq α] (self : MNIST α β) (dynamic : Bool) (num : α)
    (reads : self.FetchReads dynamic)
    (absent : ∀ index (h : index < self.mnistArray.length), Drawable dynamic index →
      self.mnistArray[index].1 ≠ num)
    (draws : Nat → Nat) (fuel : Nat) :
    self.mnistImgFetcher dynamic draws num fuel = none :=
  fetchLoop_none (fun j => by
    obtain ⟨index, h, drawable, pass⟩ := fetchPass_reads reads draws j
    exact ⟨_, pass, absent index h drawable⟩) fuel 0

theorem mnistImgFetcher_first_hit [DecidableEq α] (self : MNIST α β) (dynamic : Bool)
    (draws : Nat → Nat) (num : α) (img : β) (k fuel : Nat)
    (earlier : ∀ j < k, ∃ item, fetchPass self dynamic draws j = .ok item ∧ item.1 ≠ num)
    (hit : fetchPass self dynamic draws k = .ok (num, img)) (enough : k < fuel) :
    self.mnistImgFetcher dynamic draws num fuel = some (.ok (img, num)) :=
  fetchLoop_first k fuel 0 (by simpa only [Nat.zero_add] using earlier)
    (by rwa [Nat.zero_add]) enough

/-- Eleven images labelled `0`, then one labelled `7`: a dynamic fetch reads only the last two. -/
def sevenLast : MNIST Int Nat := ⟨[], List.replicate 11 (0, 0) ++ [(7, 11)]⟩

theorem mnistImgFetcher_never_returns_of_sevenLast :
    sevenLast.FetchReads true ∧
      (∀ index (h : index < sevenLast.mnistArray.length), Drawable true index →
        sevenLast.mnistArray[index].1 ≠ 3) ∧
      sevenLast.mnistImgFetcher true id 3 5 = none :=
  ⟨by decide, by decide,
    mnistImgFetcher_never_returns sevenLast true 3 (by decide) (by decide) id 5⟩

theorem mnistImgFetcher_first_hit_of_sevenLast :
    (∀ j < 1, ∃ item, fetchPass sevenLast true id j = .ok item ∧ item.1 ≠ 7) ∧
      fetchPass sevenLast true id 1 = .ok (7, 11) ∧
      sevenLast.mnistImgFetcher true id 7 2 = some (.ok (11, 7)) :=
  have earlier : ∀ j < 1, ∃ item, fetchPass sevenLast true id j = .ok item ∧ item.1 ≠ 7 :=
    fun j lt => ⟨(0, 0), by rw [Nat.lt_one_iff.mp lt]; exact ⟨rfl, by decide⟩⟩
  ⟨earlier, rfl, mnistImgFetcher_first_hit sevenLast true id 7 11 1 2 earlier rfl (by decide)⟩

end MNIST
end Feagi.Vision

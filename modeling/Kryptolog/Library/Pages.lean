import Mathlib.Data.List.Sort

/-! # Lists that are read in pages

A list endpoint answers with `limit` rows from `offset` on, of rows that it orders by a key. Each answer orders
anew, and rows of one key may come in another order each time. Where no page ends between two such rows, the
pages are those of one list; where one does, a row can come twice and another not at all.
-/

namespace Kryptolog.Pages
set_option autoImplicit false

variable {ρ : Type} {f : ρ → ℕ} {rows xs ys : List ρ} {b limit t : ℕ}

/-- From the greatest key to the least. -/
def Descends (f : ρ → ℕ) (xs : List ρ) : Prop := xs.Pairwise fun x y => f y ≤ f x

/-- One of the orders in which the rows can be listed. -/
structure Orders (f : ρ → ℕ) (rows xs : List ρ) : Prop where
  perm : xs.Perm rows
  descends : Descends f xs

/-- The first `b` rows end between two rows of one key. -/
def CutsTie (f : ρ → ℕ) (rows : List ρ) (b : ℕ) : Prop :=
  ∃ t, rows.countP (fun x => t < f x) < b ∧ b < rows.countP fun x => t ≤ f x

/-- The pages in the order in which they are asked for, each of the list that its answer was taken from. -/
def pages (limit : ℕ) (lists : ℕ → List ρ) (n : ℕ) : List ρ :=
  (List.range n).flatMap fun i => ((lists i).drop (i * limit)).take limit

theorem exists_orders (f : ρ → ℕ) (rows : List ρ) : ∃ xs, Orders f rows xs := by
  refine ⟨rows.mergeSort fun x y => f y ≤ f x, List.mergeSort_perm .., ?_⟩
  have hsorted := @List.pairwise_mergeSort _ (fun x y => decide (f y ≤ f x))
    (fun x y z hxy hyz => decide_eq_true ((of_decide_eq_true hyz).trans (of_decide_eq_true hxy)))
    (fun x y => by simpa using Nat.le_total (f y) (f x)) rows
  exact hsorted.imp fun h => of_decide_eq_true h

/-! ## A list that is answered in slices -/

section slices

variable {α β κ : Type}

/-- Each of the rows in question once, in order. -/
structure Enumerates (Mine : κ → Prop) (before : κ → κ → Prop) (xs : List κ) : Prop where
  complete : ∀ x, x ∈ xs ↔ Mine x
  once : xs.Nodup
  ordered : xs.Pairwise before

/-- What a test after the query leaves of the rows, by their keys. -/
theorem map_filterMap {g : β → Option α} {of : α → κ} {k : β → κ} (h : ∀ x y, g x = some y → of y = k x)
    (xs : List β) : (xs.filterMap g).map of = (xs.filter fun x => (g x).isSome).map k := by
  induction xs with
  | nil => rfl
  | cons x xs ih =>
    cases hx : g x with
    | none => rw [List.filterMap_cons_none hx, List.filter_cons_of_neg (by simp [hx]), ih]
    | some y =>
      rw [List.filterMap_cons_some hx, List.filter_cons_of_pos (by simp [hx]), List.map_cons, List.map_cons, ih,
        h x y hx]

/-- A test that drops no row drops none of a slice. -/
theorem filterMap_slice {g : β → Option α} {xs : List β} (h : ∀ x ∈ xs, (g x).isSome = true) (limit offset : ℕ) :
    ((xs.drop offset).take limit).filterMap g = ((xs.filterMap g).drop offset).take limit := by
  induction xs generalizing limit offset with
  | nil => simp
  | cons x xs ih =>
    obtain ⟨hx, hxs⟩ := List.forall_mem_cons.mp h
    obtain ⟨y, hy⟩ := Option.isSome_iff_exists.mp hx
    rw [List.filterMap_cons_some hy]
    cases offset with
    | succ offset => exact ih hxs limit offset
    | zero =>
      cases limit with
      | zero => rfl
      | succ limit =>
        rw [List.drop_zero, List.drop_zero, List.take_succ_cons, List.take_succ_cons, List.filterMap_cons_some hy]
        exact congrArg _ (ih hxs limit 0)

/-- A slice that is shorter than it may be ends the list. -/
theorem length_le_of_slice_lt {xs : List α} {limit offset : ℕ} (h : ((xs.drop offset).take limit).length < limit) :
    xs.length ≤ offset + ((xs.drop offset).take limit).length := by
  rw [List.length_take, List.length_drop] at h ⊢
  omega

end slices

/-! ## Descending lists -/

theorem Descends.filter_eq_take (h : Descends f xs) (t : ℕ) :
    xs.filter (fun x => t ≤ f x) = xs.take (xs.countP fun x => t ≤ f x) := by
  induction xs with
  | nil => rfl
  | cons x xs ih =>
    obtain ⟨hx, hxs⟩ := List.pairwise_cons.mp h
    by_cases ht : t ≤ f x
    · rw [List.filter_cons, List.countP_cons, if_pos (decide_eq_true ht), if_pos (decide_eq_true ht),
        List.take_succ_cons, ih hxs]
    · -- nothing after `x` reaches `t`
      have hnone : ∀ y ∈ x :: xs, ¬ decide (t ≤ f y) = true := by
        intro y hy hle
        have hle := of_decide_eq_true hle
        rcases List.mem_cons.mp hy with rfl | hy
        · exact ht hle
        · exact ht (hle.trans (hx y hy))
      rw [List.countP_eq_zero.mpr hnone, List.take_zero]
      exact List.filter_eq_nil_iff.mpr hnone

theorem Descends.drop_le (h : Descends f xs) {x y : ρ} (hx : x ∈ xs.take b) (hy : y ∈ xs.drop b) : f y ≤ f x := by
  rw [Descends, ← List.take_append_drop b xs, List.pairwise_append] at h
  exact h.2.2 x hx y hy

/-- The keys around the row at `b`. -/
theorem Descends.split (h : Descends f xs) {x : ρ} {post : List ρ} (hdrop : xs.drop b = x :: post) :
    xs.countP (fun y => f x < f y) ≤ b ∧ b < xs.countP fun y => f x ≤ f y := by
  have hlength : b < xs.length := by
    have hlen := congrArg List.length hdrop
    rw [List.length_drop, List.length_cons] at hlen
    omega
  have hpost : ∀ y ∈ post, f y ≤ f x := by
    have htail := h.sublist (List.drop_sublist b xs)
    rw [hdrop, List.pairwise_cons] at htail
    exact htail.1
  have hcount : ∀ p : ρ → Bool, xs.countP p = (xs.take b).countP p + (x :: post).countP p := by
    intro p
    rw [← hdrop, ← List.countP_append, List.take_append_drop]
  have htake : (xs.take b).length = b := by
    rw [List.length_take]
    omega
  constructor
  · have hzero : (x :: post).countP (fun y => decide (f x < f y)) = 0 := by
      refine List.countP_eq_zero.mpr fun y hy hlt => ?_
      have hlt := of_decide_eq_true hlt
      rcases List.mem_cons.mp hy with rfl | hy
      · omega
      · have hle := hpost y hy
        omega
    rw [hcount, hzero]
    exact List.countP_le_length.trans htake.le
  · have hall : (xs.take b).countP (fun y => decide (f x ≤ f y)) = b := by
      rw [List.countP_eq_length.mpr, htake]
      intro y hy
      exact decide_eq_true (h.drop_le hy (hdrop ▸ List.mem_cons_self))
    rw [hcount, hall, List.countP_cons, if_pos (decide_eq_true le_rfl)]
    omega

/-! ## Pages of one list -/

/-- The first rows are the same in every order, unless they end between two rows of one key. -/
theorem Orders.perm_take (hxs : Orders f rows xs) (hys : Orders f rows ys) (h : ¬ CutsTie f rows b) :
    (xs.take b).Perm (ys.take b) := by
  have hperm : xs.Perm ys := hxs.perm.trans hys.perm.symm
  cases b with
  | zero => exact List.Perm.refl _
  | succ b =>
    cases hdrop : xs.drop b with
    | nil =>
      have hlength : xs.length ≤ b := List.drop_eq_nil_iff.mp hdrop
      rw [List.take_of_length_le (by omega), List.take_of_length_le (by rw [← hperm.length_eq]; omega)]
      exact hperm
    | cons x post =>
      obtain ⟨hlt, hle⟩ := hxs.descends.split hdrop
      rw [hxs.perm.countP_eq] at hlt
      have hcount : rows.countP (fun y => f x ≤ f y) = b + 1 := by
        rw [hxs.perm.countP_eq] at hle
        by_contra hne
        exact h ⟨f x, Nat.lt_succ_of_le hlt, by omega⟩
      have hx := hxs.descends.filter_eq_take (f x)
      have hy := hys.descends.filter_eq_take (f x)
      rw [hxs.perm.countP_eq, hcount] at hx
      rw [hys.perm.countP_eq, hcount] at hy
      rw [← hx, ← hy]
      exact hperm.filter _

theorem pages_succ (limit : ℕ) (lists : ℕ → List ρ) (n : ℕ) :
    pages limit lists (n + 1) = pages limit lists n ++ ((lists n).drop (n * limit)).take limit := by
  rw [pages, List.range_succ, List.flatMap_append, List.flatMap_singleton]
  rfl

/-- Pages of one list, one after another. -/
theorem pages_const (limit : ℕ) (rows : List ρ) (n : ℕ) : pages limit (fun _ => rows) n = rows.take (n * limit) := by
  induction n with
  | zero => simp [pages]
  | succ n ih => rw [pages_succ, ih, Nat.succ_mul, List.take_add]

/-- Pages none of which ends between two rows of one key are the first rows of one list. -/
theorem pages_orders {lists : ℕ → List ρ} (hlists : ∀ i, Orders f rows (lists i)) {n : ℕ}
    (h : ∀ k < n, ¬ CutsTie f rows (k * limit)) (hys : Orders f rows ys) (hn : ¬ CutsTie f rows (n * limit)) :
    (pages limit lists n).Perm (ys.take (n * limit)) ∧ Descends f (pages limit lists n) := by
  induction n generalizing ys with
  | zero =>
    rw [Nat.zero_mul]
    exact ⟨List.Perm.refl _, List.Pairwise.nil⟩
  | succ n ih =>
    obtain ⟨hperm, hdescends⟩ := ih (fun k hk => h k (by omega)) (hlists n) (h n (Nat.lt_succ_self n))
    have htake : (lists n).take ((n + 1) * limit) =
        (lists n).take (n * limit) ++ ((lists n).drop (n * limit)).take limit := by
      rw [Nat.succ_mul, List.take_add]
    rw [pages_succ]
    constructor
    · refine List.Perm.trans ?_ ((hlists n).perm_take hys hn)
      rw [htake]
      exact hperm.append_right _
    · refine List.pairwise_append.mpr ⟨hdescends, ?_, fun x hx y hy => ?_⟩
      · exact ((hlists n).descends.sublist (List.drop_sublist ..)).sublist (List.take_sublist ..)
      · exact (hlists n).descends.drop_le (hperm.mem_iff.mp hx) (List.mem_of_mem_take hy)

/-- Past the last row nothing is cut. -/
theorem not_cutsTie_of_length_le (h : rows.length ≤ b) : ¬ CutsTie f rows b := by
  rintro ⟨t, -, hlt⟩
  have hle := List.countP_le_length (p := fun x => decide (t ≤ f x)) (l := rows)
  omega

/-! ## Pages of two orders -/

/-- Where the first rows end between two rows of one key, an order and one that swaps them. -/
theorem CutsTie.swap (h : CutsTie f rows b) (hxs : Orders f rows xs) :
    ∃ pre x y post, pre.length + 1 = b ∧ xs = pre ++ x :: y :: post ∧ Orders f rows (pre ++ y :: x :: post) := by
  obtain ⟨t, hlt, hle⟩ := h
  rw [← hxs.perm.countP_eq] at hlt hle
  have hlength : b < xs.length := hle.trans_le List.countP_le_length
  obtain ⟨a, rfl⟩ : ∃ a, b = a + 1 := ⟨b - 1, by omega⟩
  have hsplit : xs = xs.take a ++ xs.get ⟨a, by omega⟩ :: xs.get ⟨a + 1, hlength⟩ :: xs.drop (a + 2) := by
    conv_lhs => rw [← List.take_append_drop a xs]
    rw [List.drop_eq_getElem_cons (by omega), List.drop_eq_getElem_cons hlength]
    rfl
  have hkey : ∀ i, (hi : i < xs.length) → a ≤ i → i ≤ a + 1 → f (xs.get ⟨i, hi⟩) = t := by
    intro i hi hai hia
    have hdrop : xs.drop i = xs.get ⟨i, hi⟩ :: xs.drop (i + 1) := List.drop_eq_getElem_cons hi
    obtain ⟨hbefore, hafter⟩ := hxs.descends.split hdrop
    have hmono : ∀ p q : ρ → Bool, (∀ z, p z = true → q z = true) → xs.countP p ≤ xs.countP q := by
      intro p q hpq
      exact List.countP_mono_left fun z _ => hpq z
    by_contra hne
    rcases Nat.lt_or_gt_of_ne hne with hless | hmore
    · -- every row from `t` on is above the row at `i`
      have hcount := hmono (fun z => decide (t ≤ f z)) (fun z => decide (f (xs.get ⟨i, hi⟩) < f z)) fun z hz =>
        decide_eq_true (hless.trans_le (of_decide_eq_true hz))
      omega
    · have hcount := hmono (fun z => decide (f (xs.get ⟨i, hi⟩) ≤ f z)) (fun z => decide (t < f z)) fun z hz =>
        decide_eq_true (hmore.trans_le (of_decide_eq_true hz))
      omega
  have hx := hkey a (by omega) le_rfl (by omega)
  have hy := hkey (a + 1) hlength (by omega) le_rfl
  refine ⟨xs.take a, _, _, xs.drop (a + 2), ?_, hsplit, ?_, ?_⟩
  · rw [List.length_take]
    omega
  · refine List.Perm.trans ?_ hxs.perm
    conv_rhs => rw [hsplit]
    exact (List.Perm.swap ..).append_left _
  · have hdescends := hxs.descends
    rw [hsplit] at hdescends
    simp only [Descends, List.pairwise_append, List.pairwise_cons, List.mem_cons, forall_eq_or_imp] at hdescends ⊢
    obtain ⟨hpre, ⟨⟨-, hxpost⟩, hypost, hpost⟩, hall⟩ := hdescends
    refine ⟨hpre, ⟨⟨by omega, hypost⟩, hxpost, hpost⟩, fun z hz => ?_⟩
    obtain ⟨hzx, hzy, hzpost⟩ := hall z hz
    exact ⟨hzy, hzx, hzpost⟩

/-- Where a page ends between two rows of one key, the pages of some orders hold a row twice. -/
theorem exists_repeat {k n : ℕ} (hcut : CutsTie f rows (k * limit)) (hxs : Orders f rows xs) (hk : k < n) :
    ∃ lists : ℕ → List ρ, (∀ i, Orders f rows (lists i)) ∧ ¬ (pages limit lists n).Nodup := by
  obtain ⟨pre, x, y, post, hlength, rfl, hys⟩ := hcut.swap hxs
  have hpos : 0 < k * limit := by omega
  obtain ⟨j, rfl⟩ : ∃ j, k = j + 1 := ⟨k - 1, by have := Nat.pos_of_mul_pos_right hpos; omega⟩
  have hlimit : 0 < limit := Nat.pos_of_mul_pos_left hpos
  refine ⟨fun i => if i ≤ j then pre ++ x :: y :: post else pre ++ y :: x :: post, fun i => ?_, fun hnodup => ?_⟩
  · show Orders f rows (if i ≤ j then _ else _)
    split
    · exact hxs
    · exact hys
  · have hdisjoint := List.pairwise_iff_getElem.mp (List.nodup_flatMap.mp hnodup).2 j (j + 1)
      (by rw [List.length_range]; omega) (by rw [List.length_range]; omega) (Nat.lt_succ_self j)
    simp only [List.getElem_range, Function.onFun, le_refl, if_true, Nat.not_succ_le_self, if_false] at hdisjoint
    have hmul : (j + 1) * limit = j * limit + limit := Nat.succ_mul ..
    refine hdisjoint (a := x) ?_ ?_
    · rw [List.drop_append_of_le_length (by omega)]
      refine List.mem_take_iff_getElem.mpr ⟨(pre.drop (j * limit)).length, ?_, ?_⟩
      · rw [List.length_append, List.length_drop, List.length_cons]
        omega
      · simp
    · have hdrop : (pre ++ y :: x :: post).drop ((j + 1) * limit) = x :: post := by
        rw [← hlength, ← List.drop_drop, List.drop_left]
        rfl
      rw [hdrop]
      obtain ⟨l, rfl⟩ : ∃ l, limit = l + 1 := ⟨limit - 1, by omega⟩
      exact List.mem_cons_self

/-- The pages up to the last row are the rows, each once and in order, in every order of the answers, exactly
where no page ends between two rows of one key. -/
theorem pages_iff (hnodup : rows.Nodup) (hlimit : 0 < limit) :
    (∀ lists : ℕ → List ρ, (∀ i, Orders f rows (lists i)) → ∀ n, rows.length ≤ n * limit →
        Orders f rows (pages limit lists n)) ↔ ∀ k, ¬ CutsTie f rows (k * limit) := by
  obtain ⟨xs, hxs⟩ := exists_orders f rows
  constructor
  · intro h k hcut
    have hk : k < rows.length + k + 1 := by omega
    obtain ⟨lists, hlists, hrepeat⟩ := exists_repeat hcut hxs hk
    have hend : rows.length ≤ (rows.length + k + 1) * limit :=
      (Nat.le_mul_of_pos_right _ hlimit).trans (Nat.mul_le_mul_right _ (by omega))
    exact hrepeat ((h lists hlists _ hend).perm.nodup_iff.mpr hnodup)
  · intro h lists hlists n hend
    obtain ⟨hperm, hdescends⟩ := pages_orders hlists (fun k _ => h k) hxs (h n)
    rw [List.take_of_length_le (by rw [hxs.perm.length_eq]; exact hend)] at hperm
    exact ⟨hperm.trans hxs.perm, hdescends⟩

end Kryptolog.Pages

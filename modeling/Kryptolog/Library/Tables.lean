import Mathlib.Data.List.Nodup
import Mathlib.Data.List.Infix
import Mathlib.Algebra.Ring.Nat
import Mathlib.Algebra.Order.BigOperators.Group.List
import Mathlib.Algebra.Order.Group.Nat

/-! # Tables of rows with a primary key

A table is a list of rows no two of which share their primary key. The invariant is a field, so
no statement can build a table that breaks it. `Serial` adds the sequence that numbers the rows
of a table: every row in it was numbered before, so the next number is fresh.

The statements are the ones a program issues: `find?` for `SELECT … LIMIT 1`, `where'` for
`SELECT`, `update` for `UPDATE … WHERE`, `delete` for `DELETE … WHERE` and `insert`.
-/

namespace Kryptolog.Tables
set_option autoImplicit false

/-- Rows with a primary key in `κ`. -/
class Keyed (ρ : Type) (κ : outParam Type) where
  key : ρ → κ

open Keyed

@[ext]
structure Table (ρ : Type) {κ : Type} [Keyed ρ κ] where
  rows : List ρ
  nodup : (rows.map key).Nodup

/-- Of two tests the narrower one counts fewer rows, where some row tells them apart. -/
theorem countP_lt {ρ : Type} {xs : List ρ} {p q : ρ → Bool} (hle : ∀ x ∈ xs, q x = true → p x = true)
    {x : ρ} (hx : x ∈ xs) (hp : p x = true) (hq : q x = false) : xs.countP q < xs.countP p := by
  induction xs with
  | nil => cases hx
  | cons y xs ih =>
    have hle' : ∀ x ∈ xs, q x = true → p x = true := fun x h => hle x (List.mem_cons_of_mem _ h)
    rw [List.countP_cons, List.countP_cons]
    rcases List.mem_cons.mp hx with rfl | hx
    · have hcount := List.countP_mono_left hle'
      rw [if_pos hp, if_neg (by simp [hq])]
      omega
    · have hcount := ih hle' hx
      by_cases hqy : q y = true
      · rw [if_pos hqy, if_pos (hle y List.mem_cons_self hqy)]
        omega
      · rw [if_neg hqy]
        omega

/-- A list without its first items, by a name that each has for itself. -/
theorem filter_not_take {ρ β : Type} [DecidableEq β] {g : ρ → β} {xs : List ρ} (h : (xs.map g).Nodup) (k : ℕ)
    {gone : ρ → Bool} (hgone : ∀ x, gone x = true ↔ ∃ y ∈ xs.take k, g y = g x) :
    xs.filter (fun x => !gone x) = xs.drop k := by
  conv_lhs => rw [← List.take_append_drop k xs]
  rw [List.filter_append]
  have htake : (xs.take k).filter (fun x => !gone x) = [] := by
    rw [List.filter_eq_nil_iff]
    intro x hx hnot
    rw [(hgone x).mpr ⟨x, hx, rfl⟩] at hnot
    cases hnot
  have hdrop : (xs.drop k).filter (fun x => !gone x) = xs.drop k := by
    rw [List.filter_eq_self]
    intro x hx
    rw [Bool.not_eq_true', Bool.eq_false_iff]
    intro hx'
    obtain ⟨y, hy, heq⟩ := (hgone x).mp hx'
    rw [← List.take_append_drop k xs, List.map_append, List.nodup_append] at h
    exact h.2.2 (g y) (List.mem_map_of_mem hy) (g x) (List.mem_map_of_mem hx) heq
  rw [htake, hdrop, List.nil_append]

namespace Table

variable {ρ κ : Type} [Keyed ρ κ]

instance : Membership ρ (Table ρ) := ⟨fun T r => r ∈ T.rows⟩

theorem mem_rows {T : Table ρ} {r : ρ} : r ∈ T.rows ↔ r ∈ T := Iff.rfl

/-- Two rows with one key are one row. -/
theorem eq_of_key {T : Table ρ} {r r' : ρ} (h : r ∈ T) (h' : r' ∈ T) (hk : key r = key r') :
    r = r' := List.inj_on_of_nodup_map T.nodup h h' hk

def empty : Table ρ := ⟨[], List.nodup_nil⟩

def find? (p : ρ → Bool) (T : Table ρ) : Option ρ := T.rows.find? p

def any (p : ρ → Bool) (T : Table ρ) : Bool := T.rows.any p

/-- The rows that `p` selects, in the order of the table. -/
def where' (p : ρ → Bool) (T : Table ρ) : List ρ := T.rows.filter p

/-- The rows `p` selects, each replaced by `f`, which keeps the key. -/
def update (p : ρ → Bool) (f : ρ → ρ) (hf : ∀ r, key (f r) = key r) (T : Table ρ) : Table ρ where
  rows := T.rows.map fun r => if p r then f r else r
  nodup := by
    have hkeys : (T.rows.map fun r => if p r then f r else r).map key = T.rows.map key := by
      rw [List.map_map]
      refine List.map_congr_left fun r _ => ?_
      simp only [Function.comp_apply]
      split
      · exact hf r
      · rfl
    rw [hkeys]
    exact T.nodup

/-- Without the rows that `p` selects. -/
def delete (p : ρ → Bool) (T : Table ρ) : Table ρ where
  rows := T.rows.filter fun r => !p r
  nodup := T.nodup.sublist (List.filter_sublist.map key)

/-- With one more row, unless its key is taken. -/
def insert [DecidableEq κ] (r : ρ) (T : Table ρ) : Table ρ :=
  if h : key r ∈ T.rows.map key then T
  else ⟨T.rows ++ [r], by
    rw [List.map_append, List.map_singleton, List.nodup_append]
    refine ⟨T.nodup, List.nodup_singleton _, ?_⟩
    intro k hk k' hk' hkk'
    rw [List.mem_singleton] at hk'
    exact h (hk' ▸ hkk' ▸ hk)⟩

@[simp] theorem mem_update {T : Table ρ} {p : ρ → Bool} {f : ρ → ρ}
    {hf : ∀ r, key (f r) = key r} {r : ρ} :
    r ∈ T.update p f hf ↔ ∃ r₀ ∈ T, (if p r₀ then f r₀ else r₀) = r := List.mem_map

theorem update_of_mem {T : Table ρ} {r : ρ} (h : r ∈ T) (p : ρ → Bool) (f : ρ → ρ)
    (hf : ∀ r, key (f r) = key r) : (if p r then f r else r) ∈ T.update p f hf :=
  mem_update.mpr ⟨r, h, rfl⟩

/-- What `f` does not affect in a row that `p` selects, an update neither brings nor takes. -/
theorem exists_update {T : Table ρ} {p : ρ → Bool} {f : ρ → ρ} (hf : ∀ r, key (f r) = key r)
    {Q : ρ → Prop} (hQ : ∀ r, p r = true → (Q (f r) ↔ Q r)) :
    (∃ r ∈ T.update p f hf, Q r) ↔ ∃ r ∈ T, Q r := by
  have hrow : ∀ r, Q (if p r then f r else r) ↔ Q r := by
    intro r
    split
    · next hp => exact hQ r hp
    · exact Iff.rfl
  constructor
  · rintro ⟨r, hr, h⟩
    obtain ⟨r₀, hr₀, rfl⟩ := mem_update.mp hr
    exact ⟨r₀, hr₀, (hrow r₀).mp h⟩
  · rintro ⟨r, hr, h⟩
    exact ⟨_, update_of_mem hr p f hf, (hrow r).mpr h⟩

@[simp] theorem mem_delete {T : Table ρ} {p : ρ → Bool} {r : ρ} :
    r ∈ T.delete p ↔ r ∈ T ∧ p r = false := by
  rw [← mem_rows, ← mem_rows, delete, List.mem_filter, Bool.not_eq_true']

theorem mem_insert [DecidableEq κ] {T : Table ρ} {r r' : ρ} (h : r' ∈ T.insert r) :
    r' ∈ T ∨ r' = r := by
  unfold insert at h
  split at h
  · exact .inl h
  · exact (List.mem_append.mp h).imp id List.mem_singleton.mp

@[simp] theorem mem_where' {T : Table ρ} {p : ρ → Bool} {r : ρ} :
    r ∈ T.where' p ↔ r ∈ T ∧ p r = true := List.mem_filter

@[simp] theorem any_eq_true {T : Table ρ} {p : ρ → Bool} :
    T.any p = true ↔ ∃ r ∈ T, p r = true := List.any_eq_true

theorem any_eq_false {T : Table ρ} {p : ρ → Bool} :
    T.any p = false ↔ ∀ r ∈ T, p r = false := by
  simp only [any, List.any_eq_false, Bool.not_eq_true, mem_rows]

/-- Selecting by a test that an update does not change. -/
theorem where'_update (T : Table ρ) (p q : ρ → Bool) (f : ρ → ρ) (hf : ∀ r, key (f r) = key r)
    (hq : ∀ r, q (f r) = q r) :
    (T.update p f hf).where' q = (T.where' q).map fun r => if p r then f r else r := by
  have hcomp : (q ∘ fun r => if p r then f r else r) = q := by
    funext r
    simp only [Function.comp_apply]
    split
    · exact hq r
    · rfl
  rw [where', where', update, List.filter_map, hcomp]

/-- One selected row that an update moves into a class adds one to the class. -/
theorem length_filter_flip {xs : List ρ} (hxs : xs.Nodup) {r : ρ} (hr : r ∈ xs) {p q : ρ → Bool}
    {f : ρ → ρ} (hp : ∀ x ∈ xs, p x = true ↔ x = r) (hq : q r = false) (hqf : q (f r) = true) :
    ((xs.map fun x => if p x then f x else x).filter q).length = (xs.filter q).length + 1 := by
  induction xs with
  | nil => cases hr
  | cons x xs ih =>
    rw [List.nodup_cons] at hxs
    have hpx := hp x List.mem_cons_self
    have hrest : ∀ y ∈ xs, p y = true ↔ y = r := fun y hy => hp y (List.mem_cons_of_mem _ hy)
    rw [List.map_cons, List.filter_cons, List.filter_cons]
    by_cases hx : x = r
    · have hsame : (xs.map fun y => if p y then f y else y) = xs := by
        refine (List.map_congr_left fun y hy => ?_).trans (List.map_id xs)
        have hne : y ≠ r := fun e => hxs.1 (hx ▸ e ▸ hy)
        rw [if_neg (fun hpy => hne ((hrest y hy).mp hpy))]
        rfl
      rw [hsame, if_pos (hpx.mpr hx), hx, if_pos hqf, if_neg (by simp [hq])]
      rfl
    · have hmem : r ∈ xs := (List.mem_cons.mp hr).resolve_left fun e => hx e.symm
      rw [if_neg (fun h => hx (hpx.mp h))]
      split
      · rw [List.length_cons, List.length_cons, ih hxs.2 hmem hrest]
      · exact ih hxs.2 hmem hrest

/-- Selecting rows none of which is deleted. -/
theorem where'_delete {T : Table ρ} {p q : ρ → Bool} (h : ∀ r ∈ T, q r = true → p r = false) :
    (T.delete p).where' q = T.where' q := by
  rw [where', where', delete, List.filter_filter]
  refine List.filter_congr fun r hr => ?_
  cases hq : q r with
  | false => rfl
  | true => simp [h r hr hq]

theorem find?_mem {T : Table ρ} {p : ρ → Bool} {r : ρ} (h : T.find? p = some r) :
    r ∈ T ∧ p r = true := ⟨List.mem_of_find?_eq_some h, List.find?_some h⟩

theorem find?_none {T : Table ρ} {p : ρ → Bool} (h : T.find? p = none) {r : ρ} (hr : r ∈ T) :
    p r = false := by
  have hall := List.find?_eq_none.mp h r hr
  simpa using hall

theorem find?_isSome {T : Table ρ} {p : ρ → Bool} {r : ρ} (hr : r ∈ T) (hp : p r = true) :
    ∃ r', T.find? p = some r' := by
  cases h : T.find? p with
  | none => exact absurd (find?_none h hr) (by simp [hp])
  | some r' => exact ⟨r', rfl⟩

/-- Looking up by a test that an update does not change. -/
theorem find?_update (T : Table ρ) (p q : ρ → Bool) (f : ρ → ρ) (hf : ∀ r, key (f r) = key r)
    (hq : ∀ r, q (f r) = q r) :
    (T.update p f hf).find? q = (T.find? q).map fun r => if p r then f r else r := by
  have hcomp : (q ∘ fun r => if p r then f r else r) = q := by
    funext r
    simp only [Function.comp_apply]
    split
    · exact hq r
    · rfl
  rw [find?, find?, update, List.find?_map, hcomp]

/-- Looking up a row that is not updated. -/
theorem find?_update_of_ne {T : Table ρ} {p q : ρ → Bool} {f : ρ → ρ}
    (hf : ∀ r, key (f r) = key r) (hq : ∀ r, q (f r) = q r) (hne : ∀ r, q r = true → p r = false) :
    (T.update p f hf).find? q = T.find? q := by
  rw [find?_update T p q f hf hq]
  cases hfind : T.find? q with
  | none => rfl
  | some r => rw [Option.map_some, if_neg (by simp [hne r (find?_mem hfind).2])]

/-- Looking up a row that is not the inserted one. -/
theorem find?_insert_of_ne [DecidableEq κ] {T : Table ρ} {q : ρ → Bool} {r : ρ} (h : q r = false) :
    (T.insert r).find? q = T.find? q := by
  unfold insert
  split
  · rfl
  · simp [find?, h]

theorem mem_insert_of_mem [DecidableEq κ] {T : Table ρ} {r r' : ρ} (h : r' ∈ T) :
    r' ∈ T.insert r := by
  unfold insert
  split
  · exact h
  · exact List.mem_append_left _ h

theorem mem_insert_self [DecidableEq κ] {T : Table ρ} {r : ρ} (h : ∀ x ∈ T, key x ≠ key r) :
    r ∈ T.insert r := by
  have hkey : key r ∉ T.rows.map key := by
    intro hmem
    obtain ⟨x, hx, hxr⟩ := List.mem_map.mp hmem
    exact h x hx hxr
  rw [insert, dif_neg hkey]
  exact List.mem_append_right _ (List.mem_singleton_self r)

/-- Of a test that one row passes at most. -/
theorem where'_eq_toList {T : Table ρ} {p : ρ → Bool}
    (h : ∀ r ∈ T, ∀ r' ∈ T, p r = true → p r' = true → r = r') : T.where' p = (T.find? p).toList := by
  have hnodup : (T.where' p).Nodup := (List.Nodup.of_map _ T.nodup).filter p
  have hone : ∀ r ∈ T.where' p, ∀ r' ∈ T.where' p, r = r' := by
    intro r hr r' hr'
    obtain ⟨hr, hp⟩ := mem_where'.mp hr
    obtain ⟨hr', hp'⟩ := mem_where'.mp hr'
    exact h r hr r' hr' hp hp'
  have hfind : T.find? p = (T.where' p).head? := List.head?_filter.symm
  rw [hfind]
  cases hrows : T.where' p with
  | nil => rfl
  | cons r rest =>
    cases rest with
    | nil => rfl
    | cons r' rest =>
      rw [hrows] at hnodup hone
      have heq : r = r' := hone r List.mem_cons_self r' (List.mem_cons_of_mem _ List.mem_cons_self)
      exact absurd (heq ▸ List.mem_cons_self) (List.nodup_cons.mp hnodup).1

/-- Looking a row up by its key finds that row. -/
theorem find?_key [DecidableEq κ] {T : Table ρ} {r : ρ} (hr : r ∈ T) :
    T.find? (fun r' => decide (key r' = key r)) = some r := by
  obtain ⟨r', hr'⟩ := find?_isSome (p := fun r' => decide (key r' = key r)) hr (by simp)
  obtain ⟨hmem, hk⟩ := find?_mem hr'
  rw [hr', eq_of_key hmem hr (by simpa using hk)]

end Table

/-- A table whose rows are numbered by a sequence. -/
structure Serial (ρ : Type) [Keyed ρ ℕ] extends Table ρ where
  next : ℕ
  lt_next : ∀ r ∈ rows, key r < next

namespace Serial

variable {ρ : Type} [Keyed ρ ℕ]

instance : Membership ρ (Serial ρ) := ⟨fun T r => r ∈ T.toTable⟩

@[simp] theorem mem_toTable {T : Serial ρ} {r : ρ} : r ∈ T.toTable ↔ r ∈ T := Iff.rfl

theorem key_lt {T : Serial ρ} {r : ρ} (h : r ∈ T) : key r < T.next := T.lt_next r h

theorem eq_of_key {T : Serial ρ} {r r' : ρ} (h : r ∈ T) (h' : r' ∈ T) (hk : key r = key r') :
    r = r' := Table.eq_of_key (T := T.toTable) h h' hk

def empty : Serial ρ := ⟨Table.empty, 0, by simp [Table.empty]⟩

def update (p : ρ → Bool) (f : ρ → ρ) (hf : ∀ r, key (f r) = key r) (T : Serial ρ) : Serial ρ where
  toTable := T.toTable.update p f hf
  next := T.next
  lt_next := by
    intro r hr
    obtain ⟨r₀, hr₀, rfl⟩ := Table.mem_update.mp hr
    have hlt := T.lt_next r₀ hr₀
    split
    · rw [hf]; exact hlt
    · exact hlt

def delete (p : ρ → Bool) (T : Serial ρ) : Serial ρ where
  toTable := T.toTable.delete p
  next := T.next
  lt_next := fun r hr => T.lt_next r (Table.mem_delete.mp hr).1

/-- With one more row, made from the next number of the sequence. -/
def insert (mk : ℕ → ρ) (hmk : ∀ n, key (mk n) = n) (T : Serial ρ) : Serial ρ where
  rows := T.rows ++ [mk T.next]
  nodup := by
    rw [List.map_append, List.map_singleton, List.nodup_append]
    refine ⟨T.nodup, List.nodup_singleton _, ?_⟩
    intro k hk k' hk' hkk'
    obtain ⟨r, hr, hrk⟩ := List.mem_map.mp hk
    rw [List.mem_singleton, hmk] at hk'
    have hlt := T.lt_next r hr
    omega
  next := T.next + 1
  lt_next := by
    intro r hr
    rcases List.mem_append.mp hr with hr | hr
    · exact Nat.lt_succ_of_lt (T.lt_next r hr)
    · rw [List.mem_singleton.mp hr, hmk]
      exact Nat.lt_succ_self _

/-- The rows of `xs`, inserted in order. -/
def insertAll {β : Type} (mk : β → ℕ → ρ) (hmk : ∀ b n, key (mk b n) = n) (xs : List β)
    (T : Serial ρ) : Serial ρ := xs.foldl (fun T b => T.insert (mk b) (hmk b)) T

@[simp] theorem update_next {T : Serial ρ} {p : ρ → Bool} {f : ρ → ρ} {hf} :
    (T.update p f hf).next = T.next := rfl

@[simp] theorem delete_next {T : Serial ρ} {p : ρ → Bool} : (T.delete p).next = T.next := rfl

@[simp] theorem insert_next {T : Serial ρ} {mk : ℕ → ρ} {hmk} :
    (T.insert mk hmk).next = T.next + 1 := rfl

@[simp] theorem mem_update {T : Serial ρ} {p : ρ → Bool} {f : ρ → ρ}
    {hf : ∀ r, key (f r) = key r} {r : ρ} :
    r ∈ T.update p f hf ↔ ∃ r₀ ∈ T, (if p r₀ then f r₀ else r₀) = r :=
  @Table.mem_update ρ ℕ _ T.toTable p f hf r

theorem update_of_mem {T : Serial ρ} {r : ρ} (h : r ∈ T) (p : ρ → Bool) (f : ρ → ρ)
    (hf : ∀ r, key (f r) = key r) : (if p r then f r else r) ∈ T.update p f hf :=
  mem_update.mpr ⟨r, h, rfl⟩

theorem delete_congr {T : Serial ρ} {p q : ρ → Bool} (h : ∀ r ∈ T, p r = q r) : T.delete p = T.delete q := by
  have hrows : (T.rows.filter fun r => !p r) = T.rows.filter fun r => !q r :=
    List.filter_congr fun r hr => by rw [h r hr]
  have htable : T.toTable.delete p = T.toTable.delete q := Table.ext hrows
  simp only [delete, htable]

theorem delete_eq_self {T : Serial ρ} {p : ρ → Bool} (h : ∀ r ∈ T, p r = false) : T.delete p = T := by
  have hrows : (T.rows.filter fun r => !p r) = T.rows := by
    rw [List.filter_eq_self]
    intro r hr
    rw [h r hr]
    rfl
  have htable : T.toTable.delete p = T.toTable := Table.ext hrows
  simp only [delete, htable]

/-- An update of every row goes before a deletion whose test it does not change. -/
theorem delete_update {f : ρ → ρ} (hf : ∀ r, key (f r) = key r) (q : ρ → Bool) (T : Serial ρ)
    (hq : ∀ r, q (f r) = q r) :
    (T.update (fun _ => true) f hf).delete q = (T.delete q).update (fun _ => true) f hf := by
  have hrows : ((T.rows.map f).filter fun r => !q r) = (T.rows.filter fun r => !q r).map f := by
    rw [List.filter_map]
    congr 2
    funext r
    simp only [Function.comp_apply, hq]
  have htable : (T.toTable.update (fun _ => true) f hf).delete q =
      (T.toTable.delete q).update (fun _ => true) f hf := Table.ext hrows
  simp only [update, delete, htable]

theorem exists_update {T : Serial ρ} {p : ρ → Bool} {f : ρ → ρ} (hf : ∀ r, key (f r) = key r)
    {Q : ρ → Prop} (hQ : ∀ r, p r = true → (Q (f r) ↔ Q r)) :
    (∃ r ∈ T.update p f hf, Q r) ↔ ∃ r ∈ T, Q r :=
  @Table.exists_update ρ ℕ _ T.toTable p f hf Q hQ

@[simp] theorem mem_delete {T : Serial ρ} {p : ρ → Bool} {r : ρ} :
    r ∈ T.delete p ↔ r ∈ T ∧ p r = false := Table.mem_delete

@[simp] theorem mem_insert {T : Serial ρ} {mk : ℕ → ρ} {hmk} {r : ρ} :
    r ∈ T.insert mk hmk ↔ r ∈ T ∨ r = mk T.next :=
  List.mem_append.trans (or_congr_right List.mem_singleton)

/-- The rows stand in the order of their numbers. -/
def InOrder (T : Serial ρ) : Prop := T.rows.Pairwise fun r r' => key r < key r'

theorem inOrder_empty : (empty : Serial ρ).InOrder := List.Pairwise.nil

theorem InOrder.insert {T : Serial ρ} (h : T.InOrder) {mk : ℕ → ρ} (hmk : ∀ n, key (mk n) = n) :
    (T.insert mk hmk).InOrder := by
  refine List.pairwise_append.mpr ⟨h, List.pairwise_singleton .., fun r hr r' hr' => ?_⟩
  rw [List.mem_singleton.mp hr', hmk]
  exact T.lt_next r hr

theorem InOrder.delete {T : Serial ρ} (h : T.InOrder) {p : ρ → Bool} : (T.delete p).InOrder :=
  h.sublist List.filter_sublist

theorem InOrder.where' {T : Serial ρ} (h : T.InOrder) (p : ρ → Bool) :
    (T.where' p).Pairwise fun r r' => key r < key r' := h.sublist List.filter_sublist

theorem insertAll_cons {β : Type} (mk : β → ℕ → ρ) (hmk : ∀ b n, key (mk b n) = n) (x : β)
    (xs : List β) (T : Serial ρ) :
    T.insertAll mk hmk (x :: xs) = (T.insert (mk x) (hmk x)).insertAll mk hmk xs := rfl

theorem rows_insertAll {β : Type} (mk : β → ℕ → ρ) (hmk : ∀ b n, key (mk b n) = n) (xs : List β)
    (T : Serial ρ) :
    ∃ new : List ρ, (T.insertAll mk hmk xs).rows = T.rows ++ new ∧
      List.Forall₂ (fun b r => ∃ n, r = mk b n) xs new := by
  induction xs generalizing T with
  | nil => exact ⟨[], by simp [insertAll], .nil⟩
  | cons x xs ih =>
    obtain ⟨new, hrows, hnew⟩ := ih (T.insert (mk x) (hmk x))
    refine ⟨mk x T.next :: new, ?_, .cons ⟨_, rfl⟩ hnew⟩
    rw [insertAll_cons, hrows]
    simp [insert]

/-- The new rows, by a column that the rows are made from. -/
theorem rows_insertAll_column {β : Type} {mk : β → ℕ → ρ} {hmk : ∀ b n, key (mk b n) = n} {f : ρ → β}
    (hf : ∀ b n, f (mk b n) = b) (xs : List β) (T : Serial ρ) :
    ∃ new : List ρ, (T.insertAll mk hmk xs).rows = T.rows ++ new ∧ new.map f = xs ∧
      ∀ r ∈ new, ∃ n, r = mk (f r) n := by
  induction xs generalizing T with
  | nil => exact ⟨[], by simp [insertAll], rfl, fun _ hr => absurd hr List.not_mem_nil⟩
  | cons x xs ih =>
    obtain ⟨new, hrows, hcolumn, hnew⟩ := ih (T.insert (mk x) (hmk x))
    refine ⟨mk x T.next :: new, ?_, ?_, fun r hr => ?_⟩
    · rw [insertAll_cons, hrows]
      simp [insert]
    · rw [List.map_cons, hf, hcolumn]
    · rcases List.mem_cons.mp hr with rfl | hr
      · exact ⟨T.next, by rw [hf]⟩
      · exact hnew r hr

/-- Selecting none of the new rows. -/
theorem where'_insertAll_old {β : Type} {mk : β → ℕ → ρ} {hmk : ∀ b n, key (mk b n) = n}
    {xs : List β} {T : Serial ρ} {q : ρ → Bool} (h : ∀ b n, q (mk b n) = false) :
    (T.insertAll mk hmk xs).toTable.where' q = T.toTable.where' q := by
  induction xs generalizing T with
  | nil => rfl
  | cons x xs ih =>
    rw [insertAll_cons, ih]
    simp [Table.where', insert, h]

theorem mem_insertAll {β : Type} {mk : β → ℕ → ρ} {hmk : ∀ b n, key (mk b n) = n} {xs : List β}
    {T : Serial ρ} {r : ρ} (h : r ∈ T.insertAll mk hmk xs) :
    r ∈ T ∨ ∃ b ∈ xs, ∃ n, r = mk b n := by
  obtain ⟨new, hrows, hnew⟩ := rows_insertAll mk hmk xs T
  have hr : r ∈ T.rows ++ new := hrows ▸ h
  rcases List.mem_append.mp hr with hr | hr
  · exact .inl hr
  · right
    obtain ⟨i, hi, rfl⟩ := List.mem_iff_getElem.mp hr
    have hlen := hnew.length_eq
    have hmem := (List.forall₂_iff_get.mp hnew).2 i (by omega) hi
    obtain ⟨n, hn⟩ := hmem
    exact ⟨xs[i], List.getElem_mem _, n, hn⟩

theorem mem_insertAll_of_mem {β : Type} {mk : β → ℕ → ρ} {hmk : ∀ b n, key (mk b n) = n}
    {xs : List β} {T : Serial ρ} {r : ρ} (h : r ∈ T) : r ∈ T.insertAll mk hmk xs := by
  obtain ⟨new, hrows, -⟩ := rows_insertAll mk hmk xs T
  change r ∈ (T.insertAll mk hmk xs).rows
  rw [hrows]
  exact List.mem_append_left _ h

end Serial

/-! ## Totals -/

namespace Table

variable {ρ κ : Type} [Keyed ρ κ] {T : Table ρ} {w v : ρ → ℕ} {p : ρ → Bool} {f : ρ → ρ}

/-- The sum of a weight over the rows. -/
def total (w : ρ → ℕ) (T : Table ρ) : ℕ := (T.rows.map w).sum

theorem sum_where' : ((T.where' p).map w).sum = T.total fun r => if p r then w r else 0 := by
  rw [where', total]
  induction T.rows with
  | nil => rfl
  | cons r rows ih =>
    rw [List.filter_cons, List.map_cons, List.sum_cons, ← ih]
    by_cases h : p r = true
    · rw [if_pos h, if_pos h, List.map_cons, List.sum_cons]
    · rw [if_neg h, if_neg h, Nat.zero_add]

theorem length_where' : (T.where' p).length = T.total fun r => if p r then 1 else 0 := by
  rw [← sum_where', List.map_const', List.sum_replicate_nat, Nat.mul_one]

theorem total_congr (h : ∀ r ∈ T, v r = w r) : T.total v = T.total w := by
  rw [total, total, List.map_congr_left h]

theorem total_delete_le : (T.delete p).total w ≤ T.total w :=
  (List.filter_sublist.map w).sum_le_sum fun _ _ => Nat.zero_le _

theorem total_mono (h : ∀ r ∈ T, v r ≤ w r) : T.total v ≤ T.total w := List.sum_le_sum h

theorem total_update {hf : ∀ r, key (f r) = key r} :
    (T.update p f hf).total w = T.total fun r => w (if p r then f r else r) := by
  rw [total, update, List.map_map]
  rfl

/-- An update that keeps the weight of what it selects. -/
theorem total_update_eq (hf : ∀ r, key (f r) = key r) (h : ∀ r ∈ T, p r = true → w (f r) = w r) :
    (T.update p f hf).total w = T.total w := by
  rw [total_update]
  refine total_congr fun r hr => ?_
  split
  · next hp => exact h r hr hp
  · rfl

/-- Of rows with different keys an update of one key adds to one of them at most. -/
theorem sum_map_update_le {k : κ} {g : ℕ} {xs : List ρ} (hxs : (xs.map key).Nodup)
    (hp : ∀ x ∈ xs, p x = true → key x = k) (hw : ∀ x ∈ xs, p x = true → w (f x) ≤ w x + g) :
    (xs.map fun x => w (if p x then f x else x)).sum ≤ (xs.map w).sum + g := by
  induction xs with
  | nil => exact Nat.zero_le _
  | cons x xs ih =>
    rw [List.map_cons, List.nodup_cons] at hxs
    obtain ⟨hpx, hp⟩ := List.forall_mem_cons.mp hp
    obtain ⟨hwx, hw⟩ := List.forall_mem_cons.mp hw
    rw [List.map_cons, List.sum_cons, List.map_cons, List.sum_cons]
    by_cases hx : p x = true
    · have hrest : (xs.map fun y => w (if p y then f y else y)) = xs.map w := by
        refine List.map_congr_left fun y hy => ?_
        have hy' : ¬p y = true := fun h => hxs.1
          (hpx hx ▸ hp y hy h ▸ List.mem_map_of_mem hy)
        rw [if_neg hy']
      have hx' := hwx hx
      rw [hrest, if_pos hx]
      omega
    · have hrest := ih hxs.2 hp hw
      rw [if_neg hx]
      omega

theorem total_update_le {k : κ} {g : ℕ} (hf : ∀ r, key (f r) = key r)
    (hp : ∀ r ∈ T, p r = true → key r = k) (hw : ∀ r ∈ T, p r = true → w (f r) ≤ w r + g) :
    (T.update p f hf).total w ≤ T.total w + g := by
  rw [total_update]
  exact sum_map_update_le T.nodup hp hw

end Table

theorem Serial.total_insert {ρ : Type} [Keyed ρ ℕ] {T : Serial ρ} {w : ρ → ℕ} {mk : ℕ → ρ}
    (hmk : ∀ n, key (mk n) = n) :
    (T.insert mk hmk).toTable.total w = T.toTable.total w + w (mk T.next) := by
  rw [Table.total, insert, List.map_append, List.sum_append, List.map_singleton, List.sum_singleton]
  rfl

end Kryptolog.Tables

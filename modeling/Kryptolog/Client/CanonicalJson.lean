import Kryptolog.Library.Script

/-! # Canonical JSON

`canonicalJson` of crypto-core: a value is written with the members of every object in the
order of their names. Two values that are written alike differ in the order of members only
(`ordered_eq_of_canonicalJson`).
-/

namespace Kryptolog.Client
set_option autoImplicit false

open Script Delimited

mutual

/-- `canonicalJson`. -/
def canonicalJson : Value → List Char
  | .null => "null".toList
  | .bool b => (if b then "true" else "false").toList
  | .num n => n.spelling
  | .str s => quote s
  | .arr items => '[' :: [','].intercalate (canonicalItems items) ++ [']']
  | .obj fields =>
    let sorted := (canonicalFields fields).insertionSort fun f g => Text.le f.1 g.1
    '\x7b' :: [','].intercalate (sorted.map fun f => quote f.1 ++ ':' :: f.2) ++ ['\x7d']

def canonicalItems : List Value → List (List Char)
  | [] => []
  | v :: vs => canonicalJson v :: canonicalItems vs

def canonicalFields : List (Text × Value) → List (Text × List Char)
  | [] => []
  | (k, v) :: fs => (k, canonicalJson v) :: canonicalFields fs

end

/-! ## Order of members -/

abbrev NameOrder {α : Type} (f g : Text × α) : Prop := Text.le f.1 g.1 = true

mutual

/-- The value with the members of every object in the order of their names. -/
def ordered : Value → Value
  | .arr items => .arr (orderedItems items)
  | .obj fields => .obj ((orderedFields fields).insertionSort NameOrder)
  | v => v

def orderedItems : List Value → List Value
  | [] => []
  | v :: vs => ordered v :: orderedItems vs

def orderedFields : List (Text × Value) → List (Text × Value)
  | [] => []
  | (k, v) :: fs => (k, ordered v) :: orderedFields fs

end

mutual

/-- A value written with its members in the order that they have. -/
def spell : Value → List Char
  | .null => "null".toList
  | .bool b => (if b then "true" else "false").toList
  | .num n => n.spelling
  | .str s => quote s
  | .arr items => '[' :: [','].intercalate (spellItems items) ++ [']']
  | .obj fields => '\x7b' :: [','].intercalate (spellFields fields) ++ ['\x7d']

def spellItems : List Value → List (List Char)
  | [] => []
  | v :: vs => spell v :: spellItems vs

def spellFields : List (Text × Value) → List (List Char)
  | [] => []
  | (k, v) :: fs => (quote k ++ ':' :: spell v) :: spellFields fs

end

/-- A member of an object, as it is written. -/
def spellField (f : Text × Value) : List Char := quote f.1 ++ ':' :: spell f.2

theorem spellItems_eq (items : List Value) : spellItems items = items.map spell := by
  induction items with
  | nil => rfl
  | cons v vs ih => rw [spellItems, ih, List.map_cons]

theorem spellFields_eq (fields : List (Text × Value)) : spellFields fields = fields.map spellField := by
  induction fields with
  | nil => rfl
  | cons f fs ih =>
    rw [spellFields, ih, List.map_cons]
    rfl

theorem canonicalItems_eq (items : List Value) : canonicalItems items = items.map canonicalJson := by
  induction items with
  | nil => rfl
  | cons v vs ih => rw [canonicalItems, ih, List.map_cons]

theorem canonicalFields_eq (fields : List (Text × Value)) :
    canonicalFields fields = fields.map fun f => (f.1, canonicalJson f.2) := by
  induction fields with
  | nil => rfl
  | cons f fs ih => rw [canonicalFields, ih, List.map_cons]

theorem orderedItems_eq (items : List Value) : orderedItems items = items.map ordered := by
  induction items with
  | nil => rfl
  | cons v vs ih => rw [orderedItems, ih, List.map_cons]

theorem orderedFields_eq (fields : List (Text × Value)) :
    orderedFields fields = fields.map fun f => (f.1, ordered f.2) := by
  induction fields with
  | nil => rfl
  | cons f fs ih => rw [orderedFields, ih, List.map_cons]

theorem canonicalJson_eq_spell (v : Value) : canonicalJson v = spell (ordered v) := by
  induction v using Value.induct with
  | null | bool | num | str => rfl
  | arr items ih =>
    have hitems : canonicalItems items = spellItems (orderedItems items) := by
      rw [canonicalItems_eq, spellItems_eq, orderedItems_eq, List.map_map]
      exact List.map_congr_left ih
    rw [canonicalJson, hitems, ordered, spell]
  | obj fields ih =>
    have hsort : ((canonicalFields fields).insertionSort NameOrder).map
        (fun f => quote f.1 ++ ':' :: f.2) =
          spellFields ((orderedFields fields).insertionSort NameOrder) := by
      have hcanonical : canonicalFields fields =
          (orderedFields fields).map fun f => (f.1, spell f.2) := by
        rw [canonicalFields_eq, orderedFields_eq, List.map_map]
        refine List.map_congr_left fun f hf => ?_
        rw [ih f hf]
        rfl
      rw [hcanonical, spellFields_eq, ← List.map_insertionSort NameOrder NameOrder
        (fun f : Text × Value => (f.1, spell f.2)) _ fun _ _ _ _ => Iff.rfl, List.map_map]
      rfl
    rw [canonicalJson, ordered, spell, ← hsort]

/-! ## Reading back -/

/-- The kinds of value that the first character of their text tells apart. -/
inductive Shape
  | null
  | true
  | false
  | num
  | str
  | arr
  | obj
  deriving DecidableEq

def shapeOf : Value → Shape
  | .null => .null
  | .bool true => .true
  | .bool false => .false
  | .num _ => .num
  | .str _ => .str
  | .arr _ => .arr
  | .obj _ => .obj

def shapeAt (c : Char) : Option Shape :=
  if startsNumber c then some .num
  else if c = 'n' then some .null
  else if c = 't' then some .true
  else if c = 'f' then some .false
  else if c = '"' then some .str
  else if c = '[' then some .arr
  else if c = '\x7b' then some .obj
  else none

theorem shape_spell (v : Value) : ∃ c rest, spell v = c :: rest ∧ shapeAt c = some (shapeOf v) := by
  cases v with
  | null => exact ⟨'n', _, rfl, rfl⟩
  | bool b =>
    cases b with
    | true => exact ⟨'t', _, rfl, rfl⟩
    | false => exact ⟨'f', _, rfl, rfl⟩
  | num n =>
    obtain ⟨spelling, starts, chars⟩ := n
    cases spelling with
    | nil => cases starts
    | cons c rest =>
      have hc : startsNumber c = true := starts
      exact ⟨c, rest, rfl, if_pos hc⟩
  | str s => exact ⟨'"', _, rfl, rfl⟩
  | arr items => exact ⟨'[', _, rfl, rfl⟩
  | obj fields => exact ⟨'\x7b', _, rfl, rfl⟩

theorem shapeOf_eq {v w : Value} {xs ys : List Char} (h : spell v ++ xs = spell w ++ ys) :
    shapeOf v = shapeOf w := by
  obtain ⟨c, r, hv, hc⟩ := shape_spell v
  obtain ⟨d, s, hw, hd⟩ := shape_spell w
  rw [hv, hw] at h
  have hcd : c = d := (List.cons.inj h).1
  exact Option.some.inj (hc.symm.trans (hcd ▸ hd))

/-- No value begins like the end of an array. -/
theorem spell_ne_bracket (v : Value) (xs rest : List Char) : spell v ++ xs ≠ ']' :: rest := by
  intro h
  obtain ⟨c, r, hv, hc⟩ := shape_spell v
  rw [hv] at h
  rw [(List.cons.inj h).1] at hc
  cases hc

/-- What may follow a value: nothing that a number could go on with. -/
def EndsNumber (xs : List Char) : Prop := ∀ c ∈ xs.head?, ¬ isNumberChar c = true

theorem endsNumber_cons {c : Char} (h : ¬ isNumberChar c = true) (xs : List Char) :
    EndsNumber (c :: xs) := fun _ hd => Option.some.inj hd ▸ h

theorem selfDelimiting_num (n : Number) : SelfDelimiting spell EndsNumber (.num n) := by
  intro w xs ys hxs hys h
  have hshape := shapeOf_eq h
  cases w with
  | num m =>
    obtain ⟨hspelling, hrest⟩ := append_of_all_inj (List.all_eq_true.mp n.chars)
      (List.all_eq_true.mp m.chars) hxs hys h
    refine ⟨?_, hrest⟩
    obtain ⟨spelling, starts, chars⟩ := n
    obtain rfl : spelling = m.spelling := hspelling
    rfl
  | bool b => cases b <;> cases hshape
  | null | str | arr | obj => cases hshape

theorem selfDelimiting_field {f : Text × Value} (hf : SelfDelimiting spell EndsNumber f.2) :
    SelfDelimiting spellField EndsNumber f := by
  rintro ⟨k, w⟩ xs ys hxs hys h
  obtain ⟨name, v⟩ := f
  simp only [spellField, List.append_assoc, List.cons_append] at h
  obtain ⟨rfl, htail⟩ := quote_append_inj h
  obtain ⟨rfl, hrest⟩ := hf _ _ _ hxs hys (List.cons.inj htail).2
  exact ⟨rfl, hrest⟩

theorem selfDelimiting_spell (v : Value) : SelfDelimiting spell EndsNumber v := by
  have hcomma := endsNumber_cons (c := ',') (by decide)
  induction v using Value.induct with
  | num n => exact selfDelimiting_num n
  | null =>
    intro w xs ys _ _ h
    have hshape := shapeOf_eq h
    cases w with
    | null => exact ⟨rfl, List.append_cancel_left h⟩
    | bool b => cases b <;> cases hshape
    | num | str | arr | obj => cases hshape
  | bool b =>
    intro w xs ys _ _ h
    have hshape := shapeOf_eq h
    cases w with
    | bool b' =>
      obtain rfl : b = b' := by cases b <;> cases b' <;> first | rfl | cases hshape
      exact ⟨rfl, List.append_cancel_left h⟩
    | null | num | str | arr | obj => cases b <;> cases hshape
  | str s =>
    intro w xs ys _ _ h
    have hshape := shapeOf_eq h
    cases w with
    | str t =>
      obtain ⟨rfl, hrest⟩ := quote_append_inj h
      exact ⟨rfl, hrest⟩
    | bool b => cases b <;> cases hshape
    | null | num | arr | obj => cases hshape
  | arr items ih =>
    intro w xs ys _ _ h
    have hshape := shapeOf_eq h
    cases w with
    | arr items' =>
      simp only [spell, spellItems_eq, List.cons_append, List.append_assoc, List.nil_append] at h
      obtain ⟨rfl, hrest⟩ := intercalate_close_inj hcomma (endsNumber_cons (c := ']') (by decide))
        (by decide) spell_ne_bracket ih (List.cons.inj h).2
      exact ⟨rfl, hrest⟩
    | bool b => cases b <;> cases hshape
    | null | num | str | obj => cases hshape
  | obj fields ih =>
    intro w xs ys _ _ h
    have hshape := shapeOf_eq h
    cases w with
    | obj fields' =>
      simp only [spell, spellFields_eq, List.cons_append, List.append_assoc, List.nil_append] at h
      have hopen : ∀ (f : Text × Value) (xs rest : List Char), spellField f ++ xs ≠ '\x7d' :: rest := by
        intro f xs rest hf
        cases (List.cons.inj hf).1
      obtain ⟨rfl, hrest⟩ := intercalate_close_inj hcomma (endsNumber_cons (c := '\x7d') (by decide))
        (by decide) hopen (fun f hf => selfDelimiting_field (ih f hf)) (List.cons.inj h).2
      exact ⟨rfl, hrest⟩
    | bool b => cases b <;> cases hshape
    | null | num | str | arr => cases hshape

/-- Values that are written alike differ in the order of members only. -/
theorem ordered_eq_of_canonicalJson {v w : Value} (h : canonicalJson v = canonicalJson w) :
    ordered v = ordered w := by
  rw [canonicalJson_eq_spell, canonicalJson_eq_spell] at h
  have hnil : EndsNumber [] := fun _ hc => absurd hc (Option.not_mem_none _)
  exact (selfDelimiting_spell (ordered v) (ordered w) [] [] hnil hnil (by rw [h])).1

end Kryptolog.Client

import Mathlib.Data.List.Perm.Basic
import Kryptolog.Client.CanonicalJson
import Kryptolog.Client.Mirror
import Kryptolog.Library.JsonText

/-! # Canonical JSON is canonical

Of the values that `JSON.parse` returns, `canonicalJson` writes those alike that differ in the order of members, and
no others. What it writes is read as such a value, and is what Python writes for a key envelope.
-/

namespace Kryptolog.Client.CanonicalText
set_option autoImplicit false

open Script JsonText

/-- Equal but for the order in which objects list their members, at any depth. -/
inductive Same : Value → Value → Prop
  | null : Same .null .null
  | bool (b : Bool) : Same (.bool b) (.bool b)
  | num (n : Number) : Same (.num n) (.num n)
  | str (s : Text) : Same (.str s) (.str s)
  | arr {items items' : List Value} (hitems : List.Forall₂ Same items items') : Same (.arr items) (.arr items')
  | obj {fields listed fields' : List (Text × Value)} (horder : listed.Perm fields')
      (hnames : fields.map Prod.fst = listed.map Prod.fst)
      (hvalues : List.Forall₂ Same (fields.map Prod.snd) (listed.map Prod.snd)) : Same (.obj fields) (.obj fields')

/-! ## The order of names -/

theorem le_total (s t : Text) : Text.le s t = true ∨ Text.le t s = true := by
  rw [Text.le, Text.le, Bool.not_eq_true', Bool.not_eq_true', List.lex_eq_false_iff_ge, List.lex_eq_false_iff_ge]
  exact List.le_total _ _

theorem le_trans {s t u : Text} (hst : Text.le s t = true) (htu : Text.le t u = true) : Text.le s u = true := by
  rw [Text.le, Bool.not_eq_true', List.lex_eq_false_iff_ge] at hst htu ⊢
  exact List.le_trans hst htu

theorem units_eq_of_le {s t : Text} (hst : Text.le s t = true) (hts : Text.le t s = true) : units s = units t := by
  rw [Text.le, Bool.not_eq_true', List.lex_eq_false_iff_ge] at hst hts
  exact List.le_antisymm hst hts

instance {α : Type} : Std.Total (@NameOrder α) := ⟨fun f g => le_total f.1 g.1⟩

instance {α : Type} : IsTrans (Text × α) (@NameOrder α) := ⟨fun _ _ _ => le_trans⟩

/-- Members of different names are put in one order, whatever order they come in. -/
theorem insertionSort_eq_of_perm {α : Type} {fs gs : List (Text × α)} (hpaired : ∀ f ∈ fs, IsPaired f.1)
    (hnames : (fs.map Prod.fst).Nodup) (h : fs.Perm gs) :
    fs.insertionSort NameOrder = gs.insertionSort NameOrder := by
  refine List.Perm.eq_of_pairwise ?_ (List.pairwise_insertionSort _ _) (List.pairwise_insertionSort _ _)
    (((List.perm_insertionSort _ _).trans h).trans (List.perm_insertionSort _ _).symm)
  intro f g hf hg hfg hgf
  have hf : f ∈ fs := (List.mem_insertionSort _).mp hf
  have hg : g ∈ fs := h.mem_iff.mpr ((List.mem_insertionSort _).mp hg)
  exact List.inj_on_of_nodup_map hnames hf hg ((hpaired f hf).inj (hpaired g hg) (units_eq_of_le hfg hgf))

/-! ## Values with their members in order -/

theorem shapeOf_ordered (v : Value) : shapeOf (ordered v) = shapeOf v := by
  cases v with
  | bool b => cases b <;> rfl
  | null | num | str | arr | obj => rfl

theorem orderedFields_eq_zip (fields : List (Text × Value)) :
    orderedFields fields = (fields.map Prod.fst).zip ((fields.map Prod.snd).map ordered) := by
  rw [orderedFields_eq, List.map_map, List.zip_map']
  rfl

theorem forall₂_of_map_eq {α β : Type} {f : α → β} {R : α → α → Prop} {xs ys : List α}
    (hR : ∀ x ∈ xs, ∀ y, f x = f y → R x y) (h : xs.map f = ys.map f) : List.Forall₂ R xs ys := by
  induction xs generalizing ys with
  | nil =>
    obtain rfl := List.map_eq_nil_iff.mp h.symm
    exact .nil
  | cons x xs ih =>
    cases ys with
    | nil => cases h
    | cons y ys =>
      obtain ⟨hxy, htail⟩ := List.cons.inj h
      obtain ⟨hx, hxs⟩ := List.forall_mem_cons.mp hR
      exact .cons (hx y hxy) (ih hxs htail)

theorem map_eq_of_forall₂ {α β : Type} {f : α → β} {R : α → α → Prop} {xs ys : List α}
    (hR : ∀ x ∈ xs, ∀ y, R x y → f x = f y) (h : List.Forall₂ R xs ys) : xs.map f = ys.map f := by
  induction h with
  | nil => rfl
  | cons hxy _ ih =>
    obtain ⟨hx, hxs⟩ := List.forall_mem_cons.mp hR
    rw [List.map_cons, List.map_cons, hx _ hxy, ih hxs]

/-- A list whose images are those of another, but for their order, is in some order a list with the same images. -/
theorem exists_perm_of_map_perm {α β : Type} {f : α → β} {xs ys : List α} (h : (xs.map f).Perm (ys.map f)) :
    ∃ zs : List α, xs.map f = zs.map f ∧ zs.Perm ys := by
  have himages : List.Forall₂ (fun b y => b = f y) (ys.map f) ys := by
    rw [List.forall₂_map_left_iff, List.forall₂_same]
    exact fun _ _ => rfl
  obtain ⟨zs, hzs, hperm⟩ := List.perm_comp_forall₂ h himages
  refine ⟨zs, ?_, hperm⟩
  rw [← List.forall₂_eq_eq_eq, List.forall₂_map_right_iff]
  exact hzs

theorem same_of_ordered_eq {a b : Value} (h : ordered a = ordered b) : Same a b := by
  have hshape : shapeOf a = shapeOf b := by rw [← shapeOf_ordered a, h, shapeOf_ordered]
  induction a using Value.induct generalizing b with
  | null =>
    cases b with
    | null => exact .null
    | bool b => cases b <;> cases hshape
    | num | str | arr | obj => cases hshape
  | bool a =>
    cases b with
    | bool b =>
      obtain rfl : a = b := Value.bool.inj h
      exact .bool a
    | null | num | str | arr | obj => cases a <;> cases hshape
  | num n =>
    cases b with
    | num m =>
      obtain rfl : n = m := Value.num.inj h
      exact .num n
    | bool b => cases b <;> cases hshape
    | null | str | arr | obj => cases hshape
  | str s =>
    cases b with
    | str t =>
      obtain rfl : s = t := Value.str.inj h
      exact .str s
    | bool b => cases b <;> cases hshape
    | null | num | arr | obj => cases hshape
  | arr items ih =>
    cases b with
    | arr items' =>
      have hitems : items.map ordered = items'.map ordered := by
        rw [← orderedItems_eq, ← orderedItems_eq]
        exact Value.arr.inj h
      refine .arr (forall₂_of_map_eq (fun v hv w hvw => ?_) hitems)
      exact ih v hv hvw (by rw [← shapeOf_ordered v, hvw, shapeOf_ordered])
    | bool b => cases b <;> cases hshape
    | null | num | str | obj => cases hshape
  | obj fields ih =>
    cases b with
    | obj fields' =>
      have hsorted : (orderedFields fields).insertionSort NameOrder =
          (orderedFields fields').insertionSort NameOrder := Value.obj.inj h
      have hperm : (orderedFields fields).Perm (orderedFields fields') :=
        (List.perm_insertionSort NameOrder _).symm.trans
          ((List.Perm.of_eq hsorted).trans (List.perm_insertionSort NameOrder _))
      rw [orderedFields_eq, orderedFields_eq] at hperm
      obtain ⟨listed, hlisted, horder⟩ := exists_perm_of_map_perm hperm
      have hnames := congrArg (List.map Prod.fst) hlisted
      have hvalues := congrArg (List.map Prod.snd) hlisted
      rw [List.map_map, List.map_map] at hnames hvalues
      have himages : (fields.map Prod.snd).map ordered = (listed.map Prod.snd).map ordered := by
        rw [List.map_map, List.map_map]
        exact hvalues
      refine .obj horder hnames (forall₂_of_map_eq (fun v hv w hvw => ?_) himages)
      obtain ⟨f, hf, rfl⟩ := List.mem_map.mp hv
      exact ih f hf hvw (by rw [← shapeOf_ordered f.2, hvw, shapeOf_ordered])
    | bool b => cases b <;> cases hshape
    | null | num | str | arr => cases hshape

theorem ordered_eq_of_same {engine : Engine} {a b : Value} (ha : IsParsed engine a) (h : Same a b) :
    ordered a = ordered b := by
  induction a using Value.induct generalizing b with
  | null | bool | num | str =>
    cases h
    rfl
  | arr items ih =>
    cases ha with
    | arr hparsed =>
      cases h with
      | arr hitems =>
        rw [ordered, ordered, orderedItems_eq, orderedItems_eq]
        exact congrArg Value.arr (map_eq_of_forall₂ (fun v hv w hvw => ih v hv (hparsed v hv) hvw) hitems)
  | obj fields ih =>
    cases ha with
    | obj hdistinct hpaired hparsed =>
      cases h with
      | obj horder hnames hvalues =>
        next listed fields' =>
        have himages : (fields.map Prod.snd).map ordered = (listed.map Prod.snd).map ordered := by
          refine map_eq_of_forall₂ (fun v hv w hvw => ?_) hvalues
          obtain ⟨f, hf, rfl⟩ := List.mem_map.mp hv
          exact ih f hf (hparsed f hf) hvw
        have hsame : orderedFields fields = orderedFields listed := by
          rw [orderedFields_eq_zip, orderedFields_eq_zip, hnames, himages]
        have hperm : (orderedFields fields).Perm (orderedFields fields') := by
          rw [hsame, orderedFields_eq, orderedFields_eq]
          exact horder.map _
        rw [ordered, ordered]
        refine congrArg Value.obj (insertionSort_eq_of_perm (fun f hf => ?_) ?_ hperm)
        · rw [orderedFields_eq] at hf
          obtain ⟨g, hg, rfl⟩ := List.mem_map.mp hf
          exact hpaired g hg
        · rw [orderedFields_eq, List.map_map]
          exact hdistinct

/-- Two values are written alike when they are equal but for the order of members, and only then. -/
theorem canonicalJson_eq_iff {engine : Engine} {a b : Value} (ha : IsParsed engine a) :
    canonicalJson a = canonicalJson b ↔ Same a b := by
  constructor
  · exact fun h => same_of_ordered_eq (ordered_eq_of_canonicalJson h)
  · intro h
    rw [canonicalJson_eq_spell, canonicalJson_eq_spell, ordered_eq_of_same ha h]

theorem same_ordered (v : Value) : Same v (ordered v) := by
  induction v using Value.induct with
  | null => exact .null
  | bool b => exact .bool b
  | num n => exact .num n
  | str s => exact .str s
  | arr items ih =>
    rw [ordered, orderedItems_eq]
    refine .arr ?_
    rw [List.forall₂_map_right_iff, List.forall₂_same]
    exact ih
  | obj fields ih =>
    have horder := (List.perm_insertionSort NameOrder (orderedFields fields)).symm
    rw [ordered]
    refine .obj horder ?_ ?_
    · rw [orderedFields_eq, List.map_map]
      rfl
    · rw [orderedFields_eq, List.map_map, List.forall₂_map_left_iff, List.forall₂_map_right_iff, List.forall₂_same]
      exact ih

theorem isParsed_ordered {engine : Engine} {v : Value} (h : IsParsed engine v) : IsParsed engine (ordered v) := by
  induction v using Value.induct with
  | null | bool | num | str => exact h
  | arr items ih =>
    cases h with
    | arr hitems =>
      rw [ordered, orderedItems_eq]
      refine .arr fun v hv => ?_
      obtain ⟨w, hw, rfl⟩ := List.mem_map.mp hv
      exact ih w hw (hitems w hw)
  | obj fields ih =>
    cases h with
    | obj hnames hpaired hvalues =>
      have hmem : ∀ f ∈ (orderedFields fields).insertionSort NameOrder, ∃ g ∈ fields, f = (g.1, ordered g.2) := by
        intro f hf
        rw [List.mem_insertionSort, orderedFields_eq] at hf
        obtain ⟨g, hg, rfl⟩ := List.mem_map.mp hf
        exact ⟨g, hg, rfl⟩
      rw [ordered]
      refine .obj ?_ (fun f hf => ?_) fun f hf => ?_
      · rw [((List.perm_insertionSort NameOrder _).map Prod.fst).nodup_iff, orderedFields_eq, List.map_map]
        exact hnames
      · obtain ⟨g, hg, rfl⟩ := hmem f hf
        exact hpaired g hg
      · obtain ⟨g, hg, rfl⟩ := hmem f hf
        exact ih g hg (hvalues g hg)

/-! ## Reading what is written -/

section reading

variable {engine : Engine}

/-- The text of a value is read as the value. -/
def Reads (engine : Engine) (v : Value) : Prop := ∀ (n : ℕ) (rest : Text), (spell v).length ≤ n → EndsNumeral rest →
  parseValue engine n (ofChars (spell v) ++ rest) = some (v, rest)

theorem endsNumeral_cons {c : Char} (h : isNumeralChar c = false) (rest : Text) :
    EndsNumeral (.char c :: rest) := by
  intro p hp
  obtain rfl := Option.some.inj hp
  exact h

theorem skipSpace_cons {p : Point} (h : isSpace p = false) (rest : Text) : skipSpace (p :: rest) = p :: rest :=
  List.dropWhile_cons_of_neg (by rw [h]; exact Bool.false_ne_true)

theorem isSpace_of_shapeAt {c : Char} {shape : Shape} (h : shapeAt c = some shape) : isSpace (.char c) = false := by
  rw [isSpace, Bool.eq_false_iff]
  intro hspace
  simp only [Bool.or_eq_true, decide_eq_true_eq, Point.char.injEq] at hspace
  rcases hspace with ((rfl | rfl) | rfl) | rfl <;> cases h

theorem skipSpace_spell (v : Value) (rest : Text) :
    skipSpace (ofChars (spell v) ++ rest) = ofChars (spell v) ++ rest := by
  obtain ⟨c, tail, hv, hc⟩ := shape_spell v
  rw [hv]
  exact skipSpace_cons (isSpace_of_shapeAt hc) _

theorem spell_length_pos (v : Value) : 0 < (spell v).length := by
  obtain ⟨c, tail, hv, -⟩ := shape_spell v
  rw [hv]
  exact Nat.succ_pos _

/-- A word is read as a word: it begins like no string, array or object. -/
theorem parseValue_word {c : Char} {rest : Text} (hspace : isSpace (.char c) = false) (hstring : c ≠ '"')
    (harray : c ≠ '[') (hobject : c ≠ '\x7b') (n : ℕ) :
    parseValue engine (n + 1) (.char c :: rest) = parseWord engine (.char c :: rest) := by
  rw [parseValue, skipSpace_cons hspace]
  split
  · next heq => exact absurd (Point.char.inj (List.cons.inj heq).1) hstring
  · next heq => exact absurd (Point.char.inj (List.cons.inj heq).1) harray
  · next heq => exact absurd (Point.char.inj (List.cons.inj heq).1) hobject
  · rfl

theorem parseWord_number {c : Char} (h : startsNumber c = true) (rest : Text) :
    parseWord engine (.char c :: rest) = parseNumber engine (.char c :: rest) := by
  have hne : ∀ d, startsNumber d = false → ((Point.char d) == Point.char c) = false := by
    intro d hd
    rw [beq_eq_false_iff_ne]
    rintro hcd
    rw [Point.char.inj hcd, h] at hd
    cases hd
  have hword : ∀ (d : Char) (ds : List Char), startsNumber d = false →
      (ofChars (d :: ds)).isPrefixOf (.char c :: rest) = false := by
    intro d ds hd
    exact Bool.and_eq_false_iff.mpr (.inl (hne d hd))
  have hnull : (lit "null").isPrefixOf (.char c :: rest) = false := hword 'n' _ (by decide)
  have htrue : (lit "true").isPrefixOf (.char c :: rest) = false := hword 't' _ (by decide)
  have hfalse : (lit "false").isPrefixOf (.char c :: rest) = false := hword 'f' _ (by decide)
  rw [parseWord, hnull, htrue, hfalse]
  rfl

theorem reads_num {m : Number} (h : IsParsed engine (.num m)) : Reads engine (.num m) := by
  intro n rest hn hrest
  obtain ⟨n, rfl⟩ := Nat.exists_eq_succ_of_ne_zero (Nat.ne_of_gt ((spell_length_pos _).trans_le hn))
  cases h with
  | num hnumeral hread =>
    rw [spell]
    have hnumber := parseNumber_text hnumeral hread hrest
    have hstarts := m.starts
    cases hm : m.spelling with
    | nil =>
      rw [hm] at hstarts
      cases hstarts
    | cons c cs =>
      rw [hm] at hstarts hnumber
      have hc : startsNumber c = true := hstarts
      have hshape : shapeAt c = some .num := if_pos hc
      have hspace : isSpace (.char c) = false := isSpace_of_shapeAt hshape
      have hne : ∀ d, startsNumber d = false → c ≠ d := by
        rintro d hd rfl
        rw [hc] at hd
        cases hd
      exact (parseValue_word hspace (hne _ (by decide)) (hne _ (by decide)) (hne _ (by decide)) n).trans
        ((parseWord_number hc _).trans hnumber)

theorem parseName_quote {name : Text} (h : IsPaired name) (rest : Text) :
    parseName (ofChars (quote name) ++ .char ':' :: rest) = some (name, rest) := by
  have hquote : ofChars (quote name) ++ .char ':' :: rest =
      .char '"' :: (ofChars (name.flatMap escape) ++ .char '"' :: .char ':' :: rest) := by
    simp [quote, ofChars]
  rw [hquote, parseName, skipSpace_cons (by decide)]
  change ((parseString (ofChars (name.flatMap escape) ++ .char '"' :: .char ':' :: rest)).bind _) = _
  rw [parseString_quote h]
  rfl

theorem reads_str {s : Text} (h : IsPaired s) : Reads engine (.str s) := by
  intro n rest hn _
  obtain ⟨n, rfl⟩ := Nat.exists_eq_succ_of_ne_zero (Nat.ne_of_gt ((spell_length_pos _).trans_le hn))
  have hquote : ofChars (spell (.str s)) ++ rest =
      .char '"' :: (ofChars (s.flatMap escape) ++ .char '"' :: rest) := by
    simp [spell, quote, ofChars]
  rw [hquote, parseValue, skipSpace_cons (by decide)]
  change (parseString (ofChars (s.flatMap escape) ++ .char '"' :: rest)).map _ = _
  rw [parseString_quote h]
  rfl

theorem ofChars_close (cs : List Char) (c : Char) (rest : Text) :
    ofChars (cs ++ [c]) ++ rest = ofChars cs ++ .char c :: rest := by
  rw [ofChars_append, List.append_assoc]
  rfl

theorem parseItems_spell {items : List Value} (hne : items ≠ []) (hitems : ∀ v ∈ items, Reads engine v) {n : ℕ}
    (hn : ([','].intercalate (items.map spell)).length + 1 ≤ n) (rest : Text) :
    parseItems engine n (ofChars ([','].intercalate (items.map spell)) ++ .char ']' :: rest) =
      some (items, rest) := by
  induction items generalizing n with
  | nil => exact absurd rfl hne
  | cons v vs ih =>
    obtain ⟨hv, hvs⟩ := List.forall_mem_cons.mp hitems
    obtain ⟨n, rfl⟩ := Nat.exists_eq_succ_of_ne_zero (Nat.ne_of_gt (Nat.lt_of_lt_of_le (Nat.succ_pos _) hn))
    cases vs with
    | nil =>
      rw [List.map_singleton, List.intercalate_singleton] at hn ⊢
      have hread := hv n (.char ']' :: rest) (Nat.le_of_succ_le_succ hn) (endsNumeral_cons (by decide) rest)
      rw [parseItems, hread]
      rfl
    | cons w ws =>
      rw [List.map_cons, List.map_cons, List.intercalate_cons_cons] at hn ⊢
      have hrest := ih (List.cons_ne_nil w ws) hvs (n := n)
      rw [List.map_cons] at hrest
      have hpos := spell_length_pos v
      simp only [List.length_append, List.length_cons, List.length_nil] at hn
      have hread := hv n (.char ',' :: (ofChars ([','].intercalate (spell w :: ws.map spell)) ++ .char ']' :: rest))
        (by omega) (endsNumeral_cons (by decide) _)
      have hsplit : ofChars (spell v ++ [','] ++ [','].intercalate (spell w :: ws.map spell)) ++ .char ']' :: rest =
          ofChars (spell v) ++ .char ',' :: (ofChars ([','].intercalate (spell w :: ws.map spell)) ++
            .char ']' :: rest) := by
        simp [ofChars]
      rw [hsplit, parseItems, hread]
      change (parseItems engine n
        (ofChars ([','].intercalate (spell w :: ws.map spell)) ++ .char ']' :: rest)).map _ = _
      rw [hrest (by omega)]
      rfl

theorem setMember_new {fields : List (Text × Value)} {name : Text} {v : Value}
    (h : name ∉ fields.map Prod.fst) : setMember fields name v = fields ++ [(name, v)] := by
  refine if_neg fun hany => h ?_
  obtain ⟨f, hf, hname⟩ := List.any_eq_true.mp hany
  exact List.mem_map.mpr ⟨f, hf, eq_of_beq hname⟩

theorem parseMembers_spell {fields : List (Text × Value)} (hne : fields ≠ []) (hpaired : ∀ f ∈ fields, IsPaired f.1)
    (hfields : ∀ f ∈ fields, Reads engine f.2) {done : List (Text × Value)}
    (hnames : ((done ++ fields).map Prod.fst).Nodup) {n : ℕ}
    (hn : ([','].intercalate (fields.map spellField)).length + 1 ≤ n) (rest : Text) :
    parseMembers engine n done (ofChars ([','].intercalate (fields.map spellField)) ++ .char '\x7d' :: rest) =
      some (done ++ fields, rest) := by
  induction fields generalizing n done with
  | nil => exact absurd rfl hne
  | cons f fs ih =>
    obtain ⟨hname, hpaired⟩ := List.forall_mem_cons.mp hpaired
    obtain ⟨hf, hfs⟩ := List.forall_mem_cons.mp hfields
    obtain ⟨n, rfl⟩ := Nat.exists_eq_succ_of_ne_zero (Nat.ne_of_gt (Nat.lt_of_lt_of_le (Nat.succ_pos _) hn))
    have hnew : f.1 ∉ done.map Prod.fst := by
      rw [List.map_append, List.map_cons] at hnames
      exact fun hmem => List.disjoint_of_nodup_append hnames hmem List.mem_cons_self
    cases fs with
    | nil =>
      rw [List.map_singleton, List.intercalate_singleton] at hn ⊢
      simp only [spellField, List.length_append, List.length_cons] at hn
      have hread := hf n (.char '\x7d' :: rest) (by omega) (endsNumeral_cons (by decide) rest)
      have hsplit : ofChars (spellField f) ++ .char '\x7d' :: rest =
          ofChars (quote f.1) ++ .char ':' :: (ofChars (spell f.2) ++ .char '\x7d' :: rest) := by
        simp [spellField, ofChars]
      rw [hsplit, parseMembers, parseName_quote hname, Option.bind_eq_bind, Option.bind_some]
      dsimp only
      rw [hread]
      change some (setMember done f.1 f.2, rest) = _
      rw [setMember_new hnew]
    | cons g gs =>
      rw [List.map_cons, List.map_cons, List.intercalate_cons_cons] at hn ⊢
      have hshift : (((done ++ [f]) ++ g :: gs).map Prod.fst).Nodup := by
        rw [List.append_assoc]
        exact hnames
      have hrest := ih (List.cons_ne_nil g gs) hpaired hfs hshift (n := n)
      rw [List.map_cons, List.append_assoc, List.singleton_append] at hrest
      simp only [spellField, List.length_append, List.length_cons, List.length_nil] at hn
      have hread := hf n (.char ',' :: (ofChars ([','].intercalate (spellField g :: gs.map spellField)) ++
        .char '\x7d' :: rest)) (by omega) (endsNumeral_cons (by decide) _)
      have hsplit : ofChars (spellField f ++ [','] ++ [','].intercalate (spellField g :: gs.map spellField)) ++
          .char '\x7d' :: rest =
          ofChars (quote f.1) ++ .char ':' :: (ofChars (spell f.2) ++ .char ',' ::
            (ofChars ([','].intercalate (spellField g :: gs.map spellField)) ++ .char '\x7d' :: rest)) := by
        simp [spellField, ofChars]
      rw [hsplit, parseMembers, parseName_quote hname, Option.bind_eq_bind, Option.bind_some]
      dsimp only
      rw [hread]
      change parseMembers engine n (setMember done f.1 f.2)
        (ofChars ([','].intercalate (spellField g :: gs.map spellField)) ++ .char '\x7d' :: rest) = _
      rw [setMember_new hnew]
      refine hrest ?_
      simp only [spellField]
      omega

theorem parseValue_items {c : Char} (hspace : isSpace (.char c) = false) (hclose : c ≠ ']') (rest : Text) (n : ℕ) :
    parseValue engine (n + 1) (.char '[' :: .char c :: rest) =
      (parseItems engine n (.char c :: rest)).map fun p => (.arr p.1, p.2) := by
  have hskip := skipSpace_cons hspace rest
  rw [parseValue, skipSpace_cons (by decide)]
  split
  · next heq => cases heq
  · next heq =>
    obtain rfl := (List.cons.inj heq).2
    rw [hskip]
    split
    · next heq => exact absurd (Point.char.inj (List.cons.inj heq).1) hclose
    · rfl
  · next heq => cases heq
  · next hne _ => exact absurd rfl (hne _)

theorem parseValue_members {c : Char} (hspace : isSpace (.char c) = false) (hclose : c ≠ '\x7d') (rest : Text)
    (n : ℕ) : parseValue engine (n + 1) (.char '\x7b' :: .char c :: rest) =
      (parseMembers engine n [] (.char c :: rest)).map fun p => (.obj p.1, p.2) := by
  have hskip := skipSpace_cons hspace rest
  rw [parseValue, skipSpace_cons (by decide)]
  split
  · next heq => cases heq
  · next heq => cases heq
  · next heq =>
    obtain rfl := (List.cons.inj heq).2
    rw [hskip]
    split
    · next heq => exact absurd (Point.char.inj (List.cons.inj heq).1) hclose
    · rfl
  · next hne => exact absurd rfl (hne _)

/-- What is put together from parts begins like the first of them. -/
theorem intercalate_head (c : Char) (tail : List Char) (parts : List (List Char)) :
    ∃ rest, [','].intercalate ((c :: tail) :: parts) = c :: rest := by
  cases parts with
  | nil => exact ⟨tail, List.intercalate_singleton⟩
  | cons part parts => exact ⟨_, List.intercalate_cons_cons⟩

theorem reads_arr {items : List Value} (hitems : ∀ v ∈ items, Reads engine v) : Reads engine (.arr items) := by
  intro n rest hn _
  obtain ⟨n, rfl⟩ := Nat.exists_eq_succ_of_ne_zero (Nat.ne_of_gt ((spell_length_pos _).trans_le hn))
  cases items with
  | nil => rfl
  | cons v vs =>
    obtain ⟨c, tail, hv, hc⟩ := shape_spell v
    obtain ⟨body, hbody⟩ := intercalate_head c tail (vs.map spell)
    have hclose : c ≠ ']' := by
      rintro rfl
      cases hc
    have hfuel : ([','].intercalate ((v :: vs).map spell)).length + 1 ≤ n := by
      simp only [spell, spellItems_eq, List.length_append, List.length_cons, List.length_nil] at hn
      omega
    have hread := parseItems_spell (List.cons_ne_nil v vs) hitems hfuel rest
    rw [List.map_cons, hv, hbody] at hread
    rw [spell, spellItems_eq, List.map_cons, hv, hbody, List.cons_append, List.cons_append]
    have hsplit : ofChars ('[' :: c :: (body ++ [']'])) ++ rest =
        .char '[' :: .char c :: (ofChars body ++ .char ']' :: rest) := by
      simp [ofChars]
    rw [hsplit, parseValue_items (isSpace_of_shapeAt hc) hclose]
    exact congrArg (Option.map fun p : List Value × Text => (Value.arr p.1, p.2)) hread

theorem reads_obj {fields : List (Text × Value)} (hnames : (fields.map Prod.fst).Nodup)
    (hpaired : ∀ f ∈ fields, IsPaired f.1) (hfields : ∀ f ∈ fields, Reads engine f.2) :
    Reads engine (.obj fields) := by
  intro n rest hn _
  obtain ⟨n, rfl⟩ := Nat.exists_eq_succ_of_ne_zero (Nat.ne_of_gt ((spell_length_pos _).trans_le hn))
  cases fields with
  | nil => rfl
  | cons f fs =>
    obtain ⟨tail, hf⟩ : ∃ tail, spellField f = '"' :: tail := ⟨_, rfl⟩
    obtain ⟨body, hbody⟩ := intercalate_head '"' tail (fs.map spellField)
    have hfuel : ([','].intercalate ((f :: fs).map spellField)).length + 1 ≤ n := by
      simp only [spell, spellFields_eq, List.length_append, List.length_cons, List.length_nil] at hn
      omega
    have hdone : (([] ++ f :: fs).map Prod.fst).Nodup := hnames
    have hread := parseMembers_spell (List.cons_ne_nil f fs) hpaired hfields hdone hfuel rest
    rw [List.map_cons, hf, hbody] at hread
    rw [spell, spellFields_eq, List.map_cons, hf, hbody, List.cons_append, List.cons_append]
    have hsplit : ofChars ('\x7b' :: '"' :: (body ++ ['\x7d'])) ++ rest =
        .char '\x7b' :: .char '"' :: (ofChars body ++ .char '\x7d' :: rest) := by
      simp [ofChars]
    rw [hsplit, parseValue_members (by decide) (by decide)]
    exact congrArg (Option.map fun p : List (Text × Value) × Text => (Value.obj p.1, p.2)) hread

theorem reads_spell {v : Value} (h : IsParsed engine v) : Reads engine v := by
  induction v using Value.induct with
  | null =>
    intro n rest hn _
    obtain ⟨n, rfl⟩ := Nat.exists_eq_succ_of_ne_zero (Nat.ne_of_gt ((spell_length_pos _).trans_le hn))
    rfl
  | bool b =>
    intro n rest hn _
    obtain ⟨n, rfl⟩ := Nat.exists_eq_succ_of_ne_zero (Nat.ne_of_gt ((spell_length_pos _).trans_le hn))
    cases b <;> rfl
  | num m => exact reads_num h
  | str s =>
    cases h with
    | str hpaired => exact reads_str hpaired
  | arr items ih =>
    cases h with
    | arr hitems => exact reads_arr fun v hv => ih v hv (hitems v hv)
  | obj fields ih =>
    cases h with
    | obj hnames hpaired hvalues => exact reads_obj hnames hpaired fun f hf => ih f hf (hvalues f hf)

theorem parse_spell {v : Value} (h : IsParsed engine v) : parse engine (ofChars (spell v)) = some v := by
  have hnil : EndsNumeral [] := fun _ hp => absurd hp (Option.not_mem_none _)
  have hfuel : (spell v).length ≤ (ofChars (spell v)).length := by rw [ofChars, List.length_map]
  have hread := reads_spell h _ [] hfuel hnil
  rw [List.append_nil] at hread
  rw [parse, hread]
  rfl

/-- The canonical text of a value is read as the value with its members in order. -/
theorem parse_canonicalJson {v : Value} (h : IsParsed engine v) :
    parse engine (ofChars (canonicalJson v)) = some (ordered v) := by
  rw [canonicalJson_eq_spell, parse_spell (isParsed_ordered h)]

end reading

/-- Of the values that `JSON.parse` returns, those and no others are written alike that are equal but for the order of
members; what is written is read as such a value; and Python writes the same for what it accepts as an envelope. -/
theorem canonicalJson_canonical (engine : Engine) (r : NumberReader) :
    (∀ {s t : Text} {a b : Value}, parse engine s = some a → parse engine t = some b →
      (canonicalJson a = canonicalJson b ↔ Same a b)) ∧
    (∀ {s : Text} {a : Value}, parse engine s = some a →
      ∃ v, parse engine (ofChars (canonicalJson a)) = some v ∧ Same a v) ∧
    ∀ keys, Server.checkEnvelopeShape keys = .ok () →
      ∃ t, Server.canonicalJson keys = .ok t ∧ canonicalJson (toScript r keys) = t.toList := by
  refine ⟨fun ha _ => canonicalJson_eq_iff (isParsed_of_parse ha), fun ha => ?_, fun keys h => ?_⟩
  · exact ⟨_, parse_canonicalJson (isParsed_of_parse ha), same_ordered _⟩
  · obtain ⟨t, ht⟩ := Server.canonicalJson_envelope h
    exact ⟨t, ht, agrees_envelope h t ht⟩

/-! ## An example -/

/-- An engine, as far as it goes: numerals of at most fifteen digits stand for themselves. -/
def sampleEngine : Engine where
  readNumeral cs :=
    if h : (cs.head?.any startsNumber = true ∧ cs.all isNumberChar = true) ∧
        (isNumeral cs && cs.all Char.isDigit && decide (cs.length ≤ 15)) = true then
      some ⟨cs, h.1.1, h.1.2⟩
    else none
  readNumeral_spelling cs n h := by
    split at h
    · next hcs =>
      obtain rfl := Option.some.inj h
      refine ⟨?_, dif_pos hcs⟩
      exact (Bool.and_eq_true_iff.mp (Bool.and_eq_true_iff.mp hcs.2).1).1
    · cases h

theorem startsNumber_one : (['1'] : List Char).head?.any startsNumber = true := rfl

theorem isNumberChar_one : ['1'].all isNumberChar = true := rfl

def sampleOne : Value := .num ⟨['1'], startsNumber_one, isNumberChar_one⟩

def sampleMember : Text × Value := (lit "b", .arr [sampleOne, .bool true])

def sampleOther : Text × Value := (lit "a", .null)

theorem isParsed_sampleOne : IsParsed sampleEngine sampleOne := .num rfl rfl

theorem isParsed_sample (fields : List (Text × Value)) (hnames : (fields.map Prod.fst).Nodup)
    (hmem : ∀ f ∈ fields, f = sampleMember ∨ f = sampleOther) : IsParsed sampleEngine (.obj fields) := by
  refine .obj hnames (fun f hf => ?_) fun f hf => ?_
  · rcases hmem f hf with rfl | rfl <;> rfl
  · rcases hmem f hf with rfl | rfl
    · exact .arr (List.forall_mem_cons.mpr ⟨isParsed_sampleOne, List.forall_mem_singleton.mpr (.bool true)⟩)
    · exact .null

/-- Two objects with the same members, an array, and an envelope with one wrapped key. -/
theorem canonicalJson_canonical_sample :
    (canonicalJson (.obj [sampleMember, sampleOther]) = canonicalJson (.obj [sampleOther, sampleMember]) ↔
      Same (.obj [sampleMember, sampleOther]) (.obj [sampleOther, sampleMember])) ∧
    (∃ v, parse sampleEngine (ofChars (canonicalJson (.obj [sampleMember]))) = some v ∧
      Same (.obj [sampleMember]) v) ∧
    ∃ t, Server.canonicalJson (.obj [(.uni "0a", .obj [(.uni "v", .int 3), (.uni "iv", .str (.uni "AA=="))])]) =
        .ok t ∧
      canonicalJson (toScript sampleReader
        (.obj [(.uni "0a", .obj [(.uni "v", .int 3), (.uni "iv", .str (.uni "AA=="))])])) = t.toList := by
  have hfirst := parse_spell (isParsed_sample [sampleMember, sampleOther] (by decide) (by simp))
  have hsecond := parse_spell (isParsed_sample [sampleOther, sampleMember] (by decide) (by simp))
  have hone := parse_spell (isParsed_sample [sampleMember] (by decide) (by simp))
  have henvelope : Server.checkEnvelopeShape
      (.obj [(.uni "0a", .obj [(.uni "v", .int 3), (.uni "iv", .str (.uni "AA=="))])]) = .ok () := by decide
  obtain ⟨halike, hread, hpython⟩ := canonicalJson_canonical sampleEngine sampleReader
  exact ⟨halike hfirst hsecond, hread hone, hpython _ henvelope⟩

end Kryptolog.Client.CanonicalText

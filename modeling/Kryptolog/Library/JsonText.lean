import Kryptolog.Library.Script

/-! # Reading JSON

`JSON.parse`, as a function from a string to the value that it returns. A string is read by its UTF-16 units: two
escapes that make a pair are one character. Nothing here mentions this repository.
-/

namespace Kryptolog.JsonText
set_option autoImplicit false

open Script

/-! ## UTF-16 -/

def isHighSurrogate (u : ℕ) : Bool := 55296 ≤ u && u < 56320

def isLowSurrogate (u : ℕ) : Bool := 56320 ≤ u && u < 57344

theorem mod_2048_lt (n : ℕ) : n % 2048 < 2048 := Nat.mod_lt n (by decide)

def ofUnit (u : ℕ) : Point :=
  if 55296 ≤ u ∧ u < 57344 then .surrogate ⟨(u - 55296) % 2048, mod_2048_lt _⟩ else .char (Char.ofNat u)

def ofPair (high low : ℕ) : Point := .char (Char.ofNat (65536 + (high - 55296) * 1024 + (low - 56320)))

/-- The string with the given units. -/
def ofUnits : List ℕ → Text
  | high :: low :: rest =>
    if isHighSurrogate high && isLowSurrogate low then ofPair high low :: ofUnits rest
    else ofUnit high :: ofUnits (low :: rest)
  | [u] => [ofUnit u]
  | [] => []

def units (s : Text) : List ℕ := s.flatMap Point.units

/-- The surrogates that make a pair are written as one character. -/
def IsPaired (s : Text) : Prop := ofUnits (units s) = s

theorem toNat_ofNat {n : ℕ} (h : n.isValidChar) : (Char.ofNat n).toNat = n := by
  rw [Char.ofNat, dif_pos h]
  rfl

theorem units_ofUnit {u : ℕ} (h : u < 65536) : (ofUnit u).units = [u] := by
  unfold ofUnit
  split
  · next hsurrogate =>
    refine congrArg (fun n => [n]) ?_
    change 55296 + (u - 55296) % 2048 = u
    omega
  · next hchar =>
    have hvalid : u.isValidChar := by
      unfold Nat.isValidChar
      omega
    rw [Point.units, toNat_ofNat hvalid, if_pos h]

theorem units_ofPair {high low : ℕ} (hhigh : isHighSurrogate high = true) (hlow : isLowSurrogate low = true) :
    (ofPair high low).units = [high, low] := by
  simp only [isHighSurrogate, isLowSurrogate, Bool.and_eq_true, decide_eq_true_eq] at hhigh hlow
  have hvalid : (65536 + (high - 55296) * 1024 + (low - 56320)).isValidChar := by
    unfold Nat.isValidChar
    omega
  have hfirst : 55296 + (65536 + (high - 55296) * 1024 + (low - 56320) - 65536) / 1024 = high := by omega
  have hsecond : 56320 + (65536 + (high - 55296) * 1024 + (low - 56320) - 65536) % 1024 = low := by omega
  rw [ofPair, Point.units, toNat_ofNat hvalid, if_neg (by omega), hfirst, hsecond]

theorem units_ofUnits {us : List ℕ} (h : ∀ u ∈ us, u < 65536) : units (ofUnits us) = us := by
  induction us using ofUnits.induct with
  | case1 high low rest hpair ih =>
    obtain ⟨hhigh, hlow⟩ := Bool.and_eq_true_iff.mp hpair
    have hrest := ih fun u hu => h u (List.mem_cons_of_mem _ (List.mem_cons_of_mem _ hu))
    rw [ofUnits, if_pos hpair, units, List.flatMap_cons, units_ofPair hhigh hlow]
    exact congrArg (high :: low :: ·) hrest
  | case2 high low rest hpair ih =>
    have hrest := ih fun u hu => h u (List.mem_cons_of_mem _ hu)
    rw [ofUnits, if_neg hpair, units, List.flatMap_cons, units_ofUnit (h high List.mem_cons_self)]
    exact congrArg (high :: ·) hrest
  | case3 u => rw [ofUnits, units, List.flatMap_singleton, units_ofUnit (h u List.mem_cons_self)]
  | case4 => rfl

theorem isPaired_ofUnits {us : List ℕ} (h : ∀ u ∈ us, u < 65536) : IsPaired (ofUnits us) := by
  rw [IsPaired, units_ofUnits h]

theorem IsPaired.inj {s t : Text} (hs : IsPaired s) (ht : IsPaired t) (h : units s = units t) : s = t := by
  rw [← hs, h, ht]

theorem units_lt (p : Point) : ∀ u ∈ p.units, u < 65536 := by
  intro u hu
  cases p with
  | surrogate n =>
    have hn := n.isLt
    obtain rfl := List.mem_singleton.mp hu
    omega
  | char c =>
    have hc : c.toNat < 1114112 := by
      have hvalid := c.valid
      simp only [UInt32.isValidChar, Nat.isValidChar, Char.toNat_val] at hvalid
      omega
    rw [Point.units] at hu
    split at hu
    · next hone =>
      obtain rfl := List.mem_singleton.mp hu
      exact hone
    · rcases List.mem_cons.mp hu with hu | hu
      · omega
      · have hu := List.mem_singleton.mp hu
        omega

theorem ofUnits_char {c : Char} {us : List ℕ} : ofUnits (Point.units (.char c) ++ us) = .char c :: ofUnits us := by
  have hvalid : c.toNat < 55296 ∨ 57344 ≤ c.toNat ∧ c.toNat < 1114112 := by
    have hc := c.valid
    simp only [UInt32.isValidChar, Nat.isValidChar, Char.toNat_val] at hc
    omega
  by_cases hone : c.toNat < 65536
  · have hunit : ofUnit c.toNat = .char c := by
      rw [ofUnit, if_neg (by omega), Char.ofNat_toNat]
    have hhigh : isHighSurrogate c.toNat = false := by
      simp only [isHighSurrogate, Bool.and_eq_false_iff, decide_eq_false_iff_not]
      omega
    rw [Point.units, if_pos hone, List.singleton_append]
    cases us with
    | nil => rw [ofUnits, hunit, ofUnits]
    | cons u us => rw [ofUnits, hhigh, Bool.false_and, if_neg Bool.false_ne_true, hunit]
  · have hpair : ofPair (55296 + (c.toNat - 65536) / 1024) (56320 + (c.toNat - 65536) % 1024) = .char c := by
      have hnat : 65536 + (55296 + (c.toNat - 65536) / 1024 - 55296) * 1024 +
          (56320 + (c.toNat - 65536) % 1024 - 56320) = c.toNat := by omega
      rw [ofPair, hnat, Char.ofNat_toNat]
    have hhigh : isHighSurrogate (55296 + (c.toNat - 65536) / 1024) = true := by
      simp only [isHighSurrogate, Bool.and_eq_true, decide_eq_true_eq]
      omega
    have hlow : isLowSurrogate (56320 + (c.toNat - 65536) % 1024) = true := by
      simp only [isLowSurrogate, Bool.and_eq_true, decide_eq_true_eq]
      omega
    rw [Point.units, if_neg hone, List.cons_append, List.singleton_append, ofUnits, hhigh, hlow, Bool.and_self,
      if_pos rfl, hpair]

/-- A string of characters has no pair to make. -/
theorem isPaired_ofChars (cs : List Char) : IsPaired (ofChars cs) := by
  induction cs with
  | nil => rfl
  | cons c cs ih =>
    change ofUnits (Point.units (.char c) ++ units (ofChars cs)) = .char c :: ofChars cs
    rw [ofUnits_char, ih]
/-! ## Strings -/

def hexDigitValue (c : Char) : Option ℕ :=
  if c.isDigit then some (c.toNat - 48)
  else if 'a' ≤ c ∧ c ≤ 'f' then some (c.toNat - 87)
  else if 'A' ≤ c ∧ c ≤ 'F' then some (c.toNat - 55)
  else none

/-- The unit that a backslash and a character stand for. -/
def escapedUnit (c : Char) : Option ℕ :=
  if c = '"' ∨ c = '\\' ∨ c = '/' then some c.toNat
  else if c = 'b' then some 8
  else if c = 'f' then some 12
  else if c = 'n' then some 10
  else if c = 'r' then some 13
  else if c = 't' then some 9
  else none

def isControl : Point → Bool
  | .char c => c.toNat < 32
  | .surrogate _ => false

/-- The units that the rest of a string begins with. -/
def readUnits : Text → Option (List ℕ × Text)
  | .char '\\' :: .char 'u' :: .char a :: .char b :: .char c :: .char d :: rest => do
    let a ← hexDigitValue a
    let b ← hexDigitValue b
    let c ← hexDigitValue c
    let d ← hexDigitValue d
    some ([4096 * a + 256 * b + 16 * c + d], rest)
  | .char '\\' :: .char c :: rest => (escapedUnit c).map fun u => ([u], rest)
  | .char '\\' :: _ => none
  | p :: rest => if isControl p then none else some (p.units, rest)
  | [] => none

/-- The units up to the quotation mark that ends a string. -/
def readString : ℕ → Text → Option (List ℕ × Text)
  | 0, _ => none
  | _ + 1, .char '"' :: rest => some ([], rest)
  | n + 1, s => (readUnits s).bind fun p => (readString n p.2).map fun q => (p.1 ++ q.1, q.2)

/-- A string, after its first quotation mark. -/
def parseString (s : Text) : Option (Text × Text) :=
  (readString s.length s).map fun p => (ofUnits p.1, p.2)

/-! ## Numbers -/

def isDigits (cs : List Char) : Bool := !cs.isEmpty && cs.all Char.isDigit

def isExponent : List Char → Bool
  | [] => true
  | c :: cs => (c == 'e' || c == 'E') &&
    isDigits (if cs.head? = some '+' || cs.head? = some '-' then cs.tail else cs)

def isFraction : List Char → Bool
  | '.' :: cs => isDigits (cs.takeWhile Char.isDigit) && isExponent (cs.dropWhile Char.isDigit)
  | cs => isExponent cs

/-- The grammar of a number. -/
def isNumeral (cs : List Char) : Bool :=
  match if cs.head? = some '-' then cs.tail else cs with
  | '0' :: cs => isFraction cs
  | cs => isDigits (cs.takeWhile Char.isDigit) && isFraction (cs.dropWhile Char.isDigit)

/-- How an engine reads a numeral: as the nearest finite number, where there is one. -/
structure Engine where
  readNumeral : List Char → Option Number
  /-- What a number is printed as is a numeral, and is read as the number. -/
  readNumeral_spelling : ∀ cs n, readNumeral cs = some n →
    isNumeral n.spelling = true ∧ readNumeral n.spelling = some n

def isNumeralChar (c : Char) : Bool := isNumberChar c || c == 'E'

/-! ## Values -/

def isSpace (p : Point) : Bool := p = .char ' ' || p = .char '\t' || p = .char '\n' || p = .char '\r'

def skipSpace (s : Text) : Text := s.dropWhile isSpace

/-- A member of an object: a name that is there already keeps its place. -/
def setMember (fields : List (Text × Value)) (name : Text) (v : Value) : List (Text × Value) :=
  if fields.any (·.1 == name) then fields.map fun f => if f.1 = name then (name, v) else f
  else fields ++ [(name, v)]

section parser

variable (engine : Engine)

def parseNumber (s : Text) : Option (Value × Text) := do
  let cs ← chars (s.takeWhile (Point.satisfies isNumeralChar))
  if isNumeral cs then
    (engine.readNumeral cs).map fun n => (.num n, s.dropWhile (Point.satisfies isNumeralChar))
  else none

/-- A literal or a number. -/
def parseWord (s : Text) : Option (Value × Text) :=
  if (lit "null").isPrefixOf s then some (.null, s.drop 4)
  else if (lit "true").isPrefixOf s then some (.bool true, s.drop 4)
  else if (lit "false").isPrefixOf s then some (.bool false, s.drop 5)
  else parseNumber engine s

/-- A name and the colon after it. -/
def parseName (s : Text) : Option (Text × Text) :=
  match skipSpace s with
  | .char '"' :: rest => do
    let (name, rest) ← parseString rest
    match skipSpace rest with
    | .char ':' :: rest => some (name, rest)
    | _ => none
  | _ => none

mutual

def parseValue : ℕ → Text → Option (Value × Text)
  | 0, _ => none
  | n + 1, s =>
    match skipSpace s with
    | .char '"' :: rest => (parseString rest).map fun p => (.str p.1, p.2)
    | .char '[' :: rest =>
      match skipSpace rest with
      | .char ']' :: rest => some (.arr [], rest)
      | rest => (parseItems n rest).map fun p => (.arr p.1, p.2)
    | .char '\x7b' :: rest =>
      match skipSpace rest with
      | .char '\x7d' :: rest => some (.obj [], rest)
      | rest => (parseMembers n [] rest).map fun p => (.obj p.1, p.2)
    | s => parseWord engine s

def parseItems : ℕ → Text → Option (List Value × Text)
  | 0, _ => none
  | n + 1, s => do
    let (v, rest) ← parseValue n s
    match skipSpace rest with
    | .char ',' :: rest => (parseItems n rest).map fun p => (v :: p.1, p.2)
    | .char ']' :: rest => some ([v], rest)
    | _ => none

/-- The members of an object, after those that are read. -/
def parseMembers : ℕ → List (Text × Value) → Text → Option (List (Text × Value) × Text)
  | 0, _, _ => none
  | n + 1, fields, s => do
    let (name, rest) ← parseName s
    let (v, rest) ← parseValue n rest
    match skipSpace rest with
    | .char ',' :: rest => parseMembers n (setMember fields name v) rest
    | .char '\x7d' :: rest => some (setMember fields name v, rest)
    | _ => none

end

/-- `JSON.parse`. The members of an object are listed in the order in which they are read. -/
def parse (s : Text) : Option Value :=
  -- A level of nesting takes two steps and has two brackets; an item takes one and has a comma.
  match parseValue engine s.length s with
  | some (v, rest) => if (skipSpace rest).isEmpty then some v else none
  | none => none

end parser

/-! ## What is returned -/

/-- A value that can be returned: numbers that their own text stands for, strings whose pairs are characters, and
objects with one member of each name. -/
inductive IsParsed (engine : Engine) : Value → Prop
  | null : IsParsed engine .null
  | bool (b : Bool) : IsParsed engine (.bool b)
  | num {n : Number} (hnumeral : isNumeral n.spelling = true)
      (hread : engine.readNumeral n.spelling = some n) : IsParsed engine (.num n)
  | str {s : Text} (hpaired : IsPaired s) : IsParsed engine (.str s)
  | arr {items : List Value} (hitems : ∀ v ∈ items, IsParsed engine v) : IsParsed engine (.arr items)
  | obj {fields : List (Text × Value)} (hnames : (fields.map Prod.fst).Nodup)
      (hpaired : ∀ f ∈ fields, IsPaired f.1) (hvalues : ∀ f ∈ fields, IsParsed engine f.2) :
      IsParsed engine (.obj fields)

theorem hexDigitValue_lt {c : Char} {n : ℕ} (h : hexDigitValue c = some n) : n < 16 := by
  unfold hexDigitValue at h
  split at h
  · next hdigit =>
    obtain rfl := Option.some.inj h
    have hc := (Char.isDigit_iff_toNat.mp hdigit).2
    change c.toNat ≤ 57 at hc
    omega
  split at h
  · next hlower =>
    obtain rfl := Option.some.inj h
    have hc : c.toNat ≤ 102 := hlower.2
    omega
  split at h
  · next hupper =>
    obtain rfl := Option.some.inj h
    have hc : c.toNat ≤ 70 := hupper.2
    omega
  · cases h

theorem escapedUnit_lt {c : Char} {n : ℕ} (h : escapedUnit c = some n) : n < 65536 := by
  unfold escapedUnit at h
  split_ifs at h with hself
  · obtain rfl := Option.some.inj h
    rcases hself with rfl | rfl | rfl <;> decide
  all_goals
    obtain rfl := Option.some.inj h
    decide

theorem readUnits_lt {s rest : Text} {us : List ℕ} (h : readUnits s = some (us, rest)) :
    ∀ u ∈ us, u < 65536 := by
  unfold readUnits at h
  split at h
  · simp only [Option.bind_eq_some_iff, Option.bind_eq_bind, Option.some.injEq, Prod.mk.injEq] at h
    obtain ⟨a, ha, b, hb, c, hc, d, hd, rfl, -⟩ := h
    have hdigits := And.intro (hexDigitValue_lt ha) (And.intro (hexDigitValue_lt hb)
      (And.intro (hexDigitValue_lt hc) (hexDigitValue_lt hd)))
    intro u hu
    have hu := List.mem_singleton.mp hu
    omega
  · simp only [Option.map_eq_some_iff, Prod.mk.injEq] at h
    obtain ⟨n, hn, rfl, -⟩ := h
    intro u hu
    rw [List.mem_singleton.mp hu]
    exact escapedUnit_lt hn
  · cases h
  · next p rest _ _ _ =>
    split at h
    · cases h
    · obtain ⟨rfl, -⟩ := Prod.mk.inj (Option.some.inj h)
      exact units_lt p
  · cases h

theorem readString_lt {n : ℕ} {s rest : Text} {us : List ℕ} (h : readString n s = some (us, rest)) :
    ∀ u ∈ us, u < 65536 := by
  induction n, s using readString.induct generalizing us rest with
  | case1 => cases h
  | case2 n tail =>
    obtain ⟨rfl, -⟩ := Prod.mk.inj (Option.some.inj h)
    exact fun u hu => absurd hu List.not_mem_nil
  | case3 n s hne ih =>
    rw [readString.eq_3 _ _ hne] at h
    obtain ⟨p, hfirst, h⟩ := Option.bind_eq_some_iff.mp h
    obtain ⟨q, hrest, heq⟩ := Option.map_eq_some_iff.mp h
    obtain ⟨rfl, -⟩ := Prod.mk.inj heq
    intro u hu
    rcases List.mem_append.mp hu with hu | hu
    · exact readUnits_lt hfirst u hu
    · exact ih p hrest u hu

theorem parseString_isPaired {s t rest : Text} (h : parseString s = some (t, rest)) : IsPaired t := by
  obtain ⟨⟨us, rest⟩, hread, heq⟩ := Option.map_eq_some_iff.mp h
  obtain ⟨rfl, -⟩ := Prod.mk.inj heq
  exact isPaired_ofUnits (readString_lt hread)

section returned

variable {engine : Engine}

theorem parseName_isPaired {s name rest : Text} (h : parseName s = some (name, rest)) : IsPaired name := by
  unfold parseName at h
  split at h
  · simp only [Option.bind_eq_some_iff, Option.bind_eq_bind, Prod.exists] at h
    obtain ⟨t, mid, hstring, hcolon⟩ := h
    split at hcolon
    · obtain ⟨rfl, -⟩ := Prod.mk.inj (Option.some.inj hcolon)
      exact parseString_isPaired hstring
    · cases hcolon
  · cases h

theorem parseWord_isParsed {s rest : Text} {v : Value} (h : parseWord engine s = some (v, rest)) :
    IsParsed engine v := by
  unfold parseWord at h
  split at h
  · obtain ⟨rfl, -⟩ := Prod.mk.inj (Option.some.inj h)
    exact .null
  split at h
  · obtain ⟨rfl, -⟩ := Prod.mk.inj (Option.some.inj h)
    exact .bool true
  split at h
  · obtain ⟨rfl, -⟩ := Prod.mk.inj (Option.some.inj h)
    exact .bool false
  · simp only [parseNumber, Option.bind_eq_some_iff, Option.bind_eq_bind] at h
    obtain ⟨cs, -, h⟩ := h
    split at h
    · obtain ⟨n, hread, heq⟩ := Option.map_eq_some_iff.mp h
      obtain ⟨rfl, -⟩ := Prod.mk.inj heq
      obtain ⟨hnumeral, hself⟩ := engine.readNumeral_spelling cs n hread
      exact .num hnumeral hself
    · cases h

theorem setMember_isParsed {fields : List (Text × Value)} {name : Text} {v : Value}
    (h : IsParsed engine (.obj fields)) (hname : IsPaired name) (hv : IsParsed engine v) :
    IsParsed engine (.obj (setMember fields name v)) := by
  cases h with
  | obj hnames hpaired hvalues =>
    unfold setMember
    split
    · have hsame : (fields.map fun f => if f.1 = name then (name, v) else f).map Prod.fst =
          fields.map Prod.fst := by
        rw [List.map_map]
        refine List.map_congr_left fun f _ => ?_
        rw [Function.comp_apply]
        split
        · next hf => exact hf.symm
        · rfl
      refine .obj (hsame ▸ hnames) (fun f hf => ?_) fun f hf => ?_
      · obtain ⟨g, hg, rfl⟩ := List.mem_map.mp hf
        split
        · exact hname
        · exact hpaired g hg
      · obtain ⟨g, hg, rfl⟩ := List.mem_map.mp hf
        split
        · exact hv
        · exact hvalues g hg
    · next hnew =>
      have hnot : name ∉ fields.map Prod.fst := by
        intro hmem
        obtain ⟨f, hf, rfl⟩ := List.mem_map.mp hmem
        exact hnew (List.any_eq_true.mpr ⟨f, hf, beq_self_eq_true _⟩)
      refine .obj ?_ (fun f hf => ?_) fun f hf => ?_
      · rw [List.map_append]
        refine hnames.append (List.nodup_singleton _) ?_
        exact List.disjoint_singleton.mpr hnot
      · rcases List.mem_append.mp hf with hf | hf
        · exact hpaired f hf
        · rw [List.mem_singleton.mp hf]
          exact hname
      · rcases List.mem_append.mp hf with hf | hf
        · exact hvalues f hf
        · rw [List.mem_singleton.mp hf]
          exact hv

/-- What one more step reads is a value that can be returned, where what less steps read is. -/
theorem parse_isParsed_step {n : ℕ}
    (hvalue : ∀ s v rest, parseValue engine n s = some (v, rest) → IsParsed engine v)
    (hitems : ∀ s items rest, parseItems engine n s = some (items, rest) → ∀ v ∈ items, IsParsed engine v)
    (hmembers : ∀ fields s fields' rest, IsParsed engine (.obj fields) →
      parseMembers engine n fields s = some (fields', rest) → IsParsed engine (.obj fields')) :
    (∀ s v rest, parseValue engine (n + 1) s = some (v, rest) → IsParsed engine v) ∧
    (∀ s items rest, parseItems engine (n + 1) s = some (items, rest) → ∀ v ∈ items, IsParsed engine v) ∧
    ∀ fields s fields' rest, IsParsed engine (.obj fields) →
      parseMembers engine (n + 1) fields s = some (fields', rest) → IsParsed engine (.obj fields') := by
  have hempty : IsParsed engine (.obj []) :=
    .obj List.nodup_nil (fun _ hf => absurd hf List.not_mem_nil) fun _ hf => absurd hf List.not_mem_nil
  refine ⟨fun s v rest h => ?_, fun s items rest h => ?_, fun fields s fields' rest hfields h => ?_⟩
  · rw [parseValue] at h
    split at h
    · obtain ⟨⟨t, mid⟩, hstring, heq⟩ := Option.map_eq_some_iff.mp h
      obtain ⟨rfl, -⟩ := Prod.mk.inj heq
      exact .str (parseString_isPaired hstring)
    · split at h
      · obtain ⟨rfl, -⟩ := Prod.mk.inj (Option.some.inj h)
        exact .arr fun _ hv => absurd hv List.not_mem_nil
      · obtain ⟨⟨items, mid⟩, hread, heq⟩ := Option.map_eq_some_iff.mp h
        obtain ⟨rfl, -⟩ := Prod.mk.inj heq
        exact .arr (hitems _ _ _ hread)
    · split at h
      · obtain ⟨rfl, -⟩ := Prod.mk.inj (Option.some.inj h)
        exact hempty
      · obtain ⟨⟨fields, mid⟩, hread, heq⟩ := Option.map_eq_some_iff.mp h
        obtain ⟨rfl, -⟩ := Prod.mk.inj heq
        exact hmembers _ _ _ _ hempty hread
    · exact parseWord_isParsed h
  · simp only [parseItems, Option.bind_eq_some_iff, Option.bind_eq_bind, Prod.exists] at h
    obtain ⟨v, mid, hread, h⟩ := h
    have hv := hvalue _ _ _ hread
    split at h
    · obtain ⟨⟨vs, last⟩, hrest, heq⟩ := Option.map_eq_some_iff.mp h
      obtain ⟨rfl, -⟩ := Prod.mk.inj heq
      exact List.forall_mem_cons.mpr ⟨hv, hitems _ _ _ hrest⟩
    · obtain ⟨rfl, -⟩ := Prod.mk.inj (Option.some.inj h)
      exact List.forall_mem_cons.mpr ⟨hv, fun _ hmem => absurd hmem List.not_mem_nil⟩
    · cases h
  · simp only [parseMembers, Option.bind_eq_some_iff, Option.bind_eq_bind, Prod.exists] at h
    obtain ⟨name, mid, hname, v, last, hread, h⟩ := h
    have hset := setMember_isParsed hfields (parseName_isPaired hname) (hvalue _ _ _ hread)
    split at h
    · exact hmembers _ _ _ _ hset h
    · obtain ⟨rfl, -⟩ := Prod.mk.inj (Option.some.inj h)
      exact hset
    · cases h

theorem parse_isParsed_run (n : ℕ) :
    (∀ s v rest, parseValue engine n s = some (v, rest) → IsParsed engine v) ∧
    (∀ s items rest, parseItems engine n s = some (items, rest) → ∀ v ∈ items, IsParsed engine v) ∧
    ∀ fields s fields' rest, IsParsed engine (.obj fields) →
      parseMembers engine n fields s = some (fields', rest) → IsParsed engine (.obj fields') := by
  induction n with
  | zero => exact ⟨(fun _ _ _ h => by cases h), (fun _ _ _ h => by cases h), fun _ _ _ _ _ h => by cases h⟩
  | succ n ih => exact parse_isParsed_step ih.1 ih.2.1 ih.2.2

theorem isParsed_of_parse {s : Text} {v : Value} (h : parse engine s = some v) : IsParsed engine v := by
  unfold parse at h
  split at h
  · next w rest hread =>
    split at h
    · obtain rfl := Option.some.inj h
      exact (parse_isParsed_run _).1 _ _ _ hread
    · cases h
  · cases h

end returned

/-! ## What is written is read -/

theorem hexDigitValue_hexDigit : ∀ n < 16, hexDigitValue (hexDigit n) = some n := by decide

theorem readUnits_hex {a b c d : Char} {k l m n : ℕ} (ha : hexDigitValue a = some k) (hb : hexDigitValue b = some l)
    (hc : hexDigitValue c = some m) (hd : hexDigitValue d = some n) (rest : Text) :
    readUnits (ofChars ['\\', 'u', a, b, c, d] ++ rest) = some ([4096 * k + 256 * l + 16 * m + n], rest) := by
  simp only [ofChars, List.map_cons, List.map_nil, List.cons_append, List.nil_append, readUnits, ha, hb, hc, hd,
    Option.bind_eq_bind, Option.bind_some]

theorem readUnits_escaped {c : Char} {u : ℕ} (h : escapedUnit c = some u) (rest : Text) :
    readUnits (ofChars ['\\', c] ++ rest) = some ([u], rest) := by
  have hu : c ≠ 'u' := by
    rintro rfl
    cases h
  simp only [ofChars, List.map_cons, List.map_nil, List.cons_append, List.nil_append]
  unfold readUnits
  split
  · next heq =>
    cases heq
    exact absurd rfl hu
  · next heq =>
    cases heq
    rw [h]
    rfl
  · next hchar heq =>
    cases heq
    exact absurd rfl (hchar _ _)
  · next hback heq =>
    cases heq
    exact (hback rfl).elim
  · next heq => cases heq

theorem readUnits_plain {c : Char} (hback : c ≠ '\\') (hcontrol : ¬ c.toNat < 32) (rest : Text) :
    readUnits (ofChars [c] ++ rest) = some (Point.units (.char c), rest) := by
  simp only [ofChars, List.map_cons, List.map_nil, List.cons_append, List.nil_append]
  unfold readUnits
  split
  · next heq =>
    cases heq
    exact absurd rfl hback
  · next heq =>
    cases heq
    exact absurd rfl hback
  · next heq =>
    cases heq
    exact absurd rfl hback
  · next heq =>
    cases heq
    rw [if_neg (by simpa [isControl] using hcontrol)]
  · next heq => cases heq

theorem units_char {c : Char} (h : c.toNat < 65536) : Point.units (.char c) = [c.toNat] := if_pos h

/-- The escape of a code point is read as its units. -/
theorem readUnits_escape (p : Point) (rest : Text) :
    readUnits (ofChars (escape p) ++ rest) = some (p.units, rest) := by
  cases p with
  | surrogate n =>
    have hn := n.isLt
    have hunit : 4096 * 13 + 256 * (8 + n.val / 256) + 16 * (n.val / 16 % 16) + n.val % 16 = 55296 + n.val := by
      omega
    rw [escape, readUnits_hex (k := 13) rfl (hexDigitValue_hexDigit _ (by omega))
      (hexDigitValue_hexDigit _ (by omega)) (hexDigitValue_hexDigit _ (by omega)), hunit, Point.units]
  | char c =>
    rw [escape]
    unfold escapeChar
    split
    · next h =>
      rw [h]
      exact readUnits_escaped rfl rest
    split
    · next h =>
      rw [h]
      exact readUnits_escaped rfl rest
    split
    · next h =>
      rw [h]
      exact readUnits_escaped rfl rest
    split
    · next h =>
      rw [h]
      exact readUnits_escaped rfl rest
    split
    · next h =>
      rw [h]
      exact readUnits_escaped rfl rest
    split
    · next h =>
      rw [units_char (by omega), h]
      exact readUnits_escaped rfl rest
    split
    · next h =>
      rw [units_char (by omega), h]
      exact readUnits_escaped rfl rest
    split
    · next h =>
      have hunit : 4096 * 0 + 256 * 0 + 16 * (c.toNat / 16) + c.toNat % 16 = c.toNat := by omega
      rw [readUnits_hex (k := 0) (l := 0) rfl rfl (hexDigitValue_hexDigit _ (by omega))
        (hexDigitValue_hexDigit _ (by omega)), hunit, units_char (by omega)]
    · next _ hback _ _ _ _ _ hcontrol => exact readUnits_plain hback hcontrol rest

theorem ofChars_append (cs ds : List Char) : ofChars (cs ++ ds) = ofChars cs ++ ofChars ds := List.map_append

theorem ofChars_inj {cs ds : List Char} (h : ofChars cs = ofChars ds) : cs = ds :=
  List.map_injective_iff.mpr (fun _ _ hc => Point.char.inj hc) h

theorem ofChars_ne_quote (p : Point) (rest : Text) : ∀ s, ofChars (escape p) ++ rest ≠ .char '"' :: s := by
  intro s h
  cases hp : escape p with
  | nil =>
    have hread := unescape_escape p []
    rw [hp] at hread
    cases hread
  | cons c cs =>
    rw [hp] at h
    obtain rfl : c = '"' := Point.char.inj (List.cons.inj h).1
    have hsplit : escape p ++ [] = '"' :: cs := by rw [hp, List.append_nil]
    exact escape_ne_quote p [] cs hsplit

theorem readString_escapes (s rest : Text) {n : ℕ} (h : s.length < n) :
    readString n (ofChars (s.flatMap escape) ++ .char '"' :: rest) = some (units s, rest) := by
  induction s generalizing n with
  | nil =>
    obtain ⟨n, rfl⟩ := Nat.exists_eq_succ_of_ne_zero (Nat.ne_of_gt h)
    rfl
  | cons p s ih =>
    obtain ⟨n, rfl⟩ := Nat.exists_eq_succ_of_ne_zero (Nat.ne_of_gt (Nat.zero_lt_of_lt h))
    rw [List.flatMap_cons, ofChars_append, List.append_assoc, readString.eq_3 _ _ (ofChars_ne_quote p _),
      readUnits_escape, Option.bind_some, ih (Nat.lt_of_succ_lt_succ h)]
    rfl

theorem length_le_escapes (s : Text) : s.length ≤ (s.flatMap escape).length := by
  induction s with
  | nil => exact Nat.le_refl 0
  | cons p s ih =>
    have hpos : 1 ≤ (escape p).length := by
      cases hp : escape p with
      | nil => exact absurd (by rw [hp]; rfl) (ofChars_ne_quote p [.char '"'] [])
      | cons c cs => exact Nat.succ_le_succ (Nat.zero_le _)
    rw [List.flatMap_cons, List.length_append, List.length_cons]
    omega

/-- A quoted string is read as the string. -/
theorem parseString_quote {s : Text} (h : IsPaired s) (rest : Text) :
    parseString (ofChars (s.flatMap escape) ++ .char '"' :: rest) = some (s, rest) := by
  have hlength : s.length < (ofChars (s.flatMap escape) ++ .char '"' :: rest).length := by
    have hle := length_le_escapes s
    rw [List.length_append, ofChars, List.length_map, List.length_cons]
    omega
  rw [parseString, readString_escapes s rest hlength, Option.map_some, h]

/-- What may follow a number. -/
def EndsNumeral (rest : Text) : Prop := ∀ p ∈ rest.head?, Point.satisfies isNumeralChar p = false

theorem takeWhile_numeral {cs : List Char} (hall : cs.all isNumberChar = true) {rest : Text}
    (hrest : EndsNumeral rest) :
    (ofChars cs ++ rest).takeWhile (Point.satisfies isNumeralChar) = ofChars cs ∧
      (ofChars cs ++ rest).dropWhile (Point.satisfies isNumeralChar) = rest := by
  induction cs with
  | nil =>
    cases rest with
    | nil => exact ⟨rfl, rfl⟩
    | cons p rest =>
      have hp := hrest p rfl
      exact ⟨List.takeWhile_cons_of_neg (by simp [hp]), List.dropWhile_cons_of_neg (by simp [hp])⟩
  | cons c cs ih =>
    obtain ⟨hc, hcs⟩ := Bool.and_eq_true_iff.mp (List.all_cons.symm.trans hall)
    have hp : Point.satisfies isNumeralChar (.char c) = true := Bool.or_eq_true_iff.mpr (.inl hc)
    obtain ⟨htake, hdrop⟩ := ih hcs
    exact ⟨(List.takeWhile_cons_of_pos hp).trans (congrArg (Point.char c :: ·) htake),
      (List.dropWhile_cons_of_pos hp).trans hdrop⟩

section reading

variable {engine : Engine}

theorem parseNumber_text {n : Number} (hnumeral : isNumeral n.spelling = true)
    (hread : engine.readNumeral n.spelling = some n) {rest : Text} (hrest : EndsNumeral rest) :
    parseNumber engine (ofChars n.spelling ++ rest) = some (.num n, rest) := by
  obtain ⟨htake, hdrop⟩ := takeWhile_numeral n.chars hrest
  rw [parseNumber, htake, hdrop, chars_eq_some.mpr rfl, Option.bind_eq_bind, Option.bind_some, if_pos hnumeral,
    hread]
  rfl

end reading

end Kryptolog.JsonText

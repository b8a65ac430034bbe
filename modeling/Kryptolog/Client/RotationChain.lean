import Kryptolog.Client.BodyInjectivity
import Kryptolog.Client.Messages
import Kryptolog.Library.Links

/-! # Chains of key rotations

`verifyKeyRotation` and `rotationChain` of `signing.js`: the records that a directory serves, walked from the key
that was pinned to the key that is current.
-/

namespace Kryptolog.Client
set_option autoImplicit false

open Script Fallible Links

/-- A rotation record as the directory serves it. -/
structure Rotation where
  oldKid : Value
  newKid : Value
  alg : Value
  ts : Value
  signature : Value

/-- `value === text`. -/
def equalsText (text : Text) : Value → Bool
  | .str s => s == text
  | _ => false

/-- The text of a value that is one. -/
def textOf : Value → Text
  | .str s => s
  | _ => []

namespace Messenger

variable (env : Messenger) (address identityPublicKey : Text)

/-- `verifyKeyRotation`. -/
def verifyKeyRotation (rotation : Rotation) : Bool :=
  equalsText (lit Server.kemAlg) rotation.alg &&
    match keyRotationBody (.str address) rotation.oldKid rotation.newKid rotation.ts with
    | .error _ => false
    | .ok message => env.verifyIdentitySignature address identityPublicKey message rotation.signature

/-- `byOld.get(kid)`: a `Map` keeps the last record of a key. -/
def byOld (rotations : List Rotation) (kid : Text) : Option Rotation :=
  rotations.reverse.find? fun r => equalsText kid r.oldKid

/-- The loop of `rotationChain`, with the turns that it may still take. The map holds one record of a key, so that
the chain includes the record of a key where it has one of that key. A record that verifies names its new key by a
text. -/
def walkRotations (rotations : List Rotation) (toKid : Text) : ℕ → Text → List Rotation →
    Option (Option (List Rotation))
  | 0, _, _ => none
  | turns + 1, kid, chain =>
    if kid = toKid then some (some chain)
    else match byOld rotations kid with
      | none => some none
      | some next =>
        if chain.any fun r => equalsText kid r.oldKid then some none
        else if !env.verifyKeyRotation address identityPublicKey next then some none
        else walkRotations rotations toKid turns (textOf next.newKid) (chain ++ [next])

/-- `rotationChain`. -/
def rotationChain (rotations : List Rotation) (fromKid toKid : Text) : Option (Option (List Rotation)) :=
  env.walkRotations address identityPublicKey rotations toKid (rotations.length + 1) fromKid []

/-- A served record that verifies, from the key that it replaces to the one that replaces it. -/
structure Rotates (rotations : List Rotation) (old : Text) (r : Rotation) (new : Text) : Prop where
  served : r ∈ rotations
  verified : env.verifyKeyRotation address identityPublicKey r = true
  replaces : r.oldKid = .str old
  replacedBy : r.newKid = .str new

/-- The records that are served for one key lead to one key, and all or none of them verify. -/
def Agree (rotations : List Rotation) : Prop :=
  ∀ r ∈ rotations, ∀ r' ∈ rotations, ∀ kid, r.oldKid = .str kid → r'.oldKid = .str kid →
    r.newKid = r'.newKid ∧
      env.verifyKeyRotation address identityPublicKey r = env.verifyKeyRotation address identityPublicKey r'

/-! ## One turn -/

section turn

variable {env address identityPublicKey} {rotations chain : List Rotation} {kid toKid : Text} {r : Rotation}

theorem equalsText_iff {text : Text} {v : Value} : equalsText text v = true ↔ v = .str text := by
  cases v <;> simp [equalsText]

theorem texts_of_verified (h : env.verifyKeyRotation address identityPublicKey r = true) :
    ∃ old new, r.oldKid = .str old ∧ r.newKid = .str new := by
  rw [verifyKeyRotation, Bool.and_eq_true] at h
  cases hbody : keyRotationBody (.str address) r.oldKid r.newKid r.ts with
  | error e =>
    rw [hbody] at h
    cases h.2
  | ok message =>
    simp only [keyRotationBody, bind_eq_ok, need_eq_ok] at hbody
    obtain ⟨_, -, _, hold, _, hnew, -⟩ := hbody
    cases hr : r.oldKid <;> rw [hr] at hold <;> try cases hold
    cases hr' : r.newKid <;> rw [hr'] at hnew <;> try cases hnew
    exact ⟨_, _, rfl, rfl⟩

theorem byOld_eq_some (h : byOld rotations kid = some r) : r ∈ rotations ∧ r.oldKid = .str kid := by
  have hmem := List.mem_of_find?_eq_some h
  have htext := List.find?_some h
  exact ⟨List.mem_reverse.mp hmem, equalsText_iff.mp htext⟩

theorem exists_byOld (hr : r ∈ rotations) (hold : r.oldKid = .str kid) : ∃ r', byOld rotations kid = some r' := by
  cases hfind : byOld rotations kid with
  | some r' => exact ⟨r', rfl⟩
  | none =>
    have hnone := List.find?_eq_none.mp hfind r (List.mem_reverse.mpr hr)
    exact absurd (equalsText_iff.mpr hold) hnone

/-- The record that the map holds for a key, where it verifies. -/
def Follows (env : Messenger) (address identityPublicKey : Text) (rotations : List Rotation) (old : Text)
    (r : Rotation) (new : Text) : Prop :=
  byOld rotations old = some r ∧ env.Rotates address identityPublicKey rotations old r new

theorem any_equalsText : (chain.any fun r => equalsText kid r.oldKid) = true ↔ ∃ r ∈ chain, r.oldKid = .str kid := by
  simp only [List.any_eq_true, equalsText_iff]

/-- A turn that goes on takes the record that the map holds for the key, and it verifies. -/
theorem follows_of_verified (h : byOld rotations kid = some r)
    (hverified : env.verifyKeyRotation address identityPublicKey r = true) :
    Follows env address identityPublicKey rotations kid r (textOf r.newKid) := by
  obtain ⟨hmem, hold⟩ := byOld_eq_some h
  obtain ⟨_, new, -, hnew⟩ := texts_of_verified hverified
  refine ⟨h, hmem, hverified, hold, ?_⟩
  rw [hnew]
  rfl

end turn

/-! ## The walk -/

section walk

variable {env address identityPublicKey} {rotations chain : List Rotation} {fromKid kid toKid : Text}

/-- The keys that the records of a chain replace. -/
def replaced (chain : List Rotation) : List Text := chain.map fun r => textOf r.oldKid

theorem not_mem_replaced (hchain : Leads (Follows env address identityPublicKey rotations) fromKid chain kid)
    {k : Text} (h : ¬ ∃ r ∈ chain, r.oldKid = .str k) : k ∉ replaced chain := by
  intro hk
  obtain ⟨r, hr, rfl⟩ := List.mem_map.mp hk
  obtain ⟨old, hold⟩ := hchain.forall (P := fun r => ∃ old, r.oldKid = .str old)
    (fun _ r _ h => ⟨_, h.2.replaces⟩) r hr
  exact h ⟨r, hr, by rw [hold]; rfl⟩

theorem walkRotations_succ (turns : ℕ) (hne : kid ≠ toKid) {next : Rotation} (hnext : byOld rotations kid = some next)
    (hnew : ¬ ∃ r ∈ chain, r.oldKid = .str kid)
    (hverified : env.verifyKeyRotation address identityPublicKey next = true) :
    env.walkRotations address identityPublicKey rotations toKid (turns + 1) kid chain =
      env.walkRotations address identityPublicKey rotations toKid turns (textOf next.newKid) (chain ++ [next]) := by
  have hany : (chain.any fun r => equalsText kid r.oldKid) = false :=
    Bool.eq_false_iff.mpr fun h => hnew (any_equalsText.mp h)
  rw [walkRotations, if_neg hne, hnext]
  simp only [hany, hverified, Bool.not_true, Bool.false_eq_true, if_false]

/-- The walk ends: every record that it takes replaces another key, and there are no more keys than records. -/
theorem walkRotations_ends {turns : ℕ}
    (hchain : Leads (Follows env address identityPublicKey rotations) fromKid chain kid)
    (hnodup : (replaced chain).Nodup) (hturns : rotations.length < turns + chain.length) :
    ∃ answer, env.walkRotations address identityPublicKey rotations toKid turns kid chain = some answer := by
  induction turns generalizing chain kid with
  | zero =>
    have hsubset : replaced chain ⊆ rotations.map fun r => textOf r.oldKid := by
      intro k hk
      obtain ⟨r, hr, rfl⟩ := List.mem_map.mp hk
      exact List.mem_map_of_mem (hchain.forall (fun _ r _ h => h.2.served) r hr)
    have hlength := (List.subperm_of_subset hnodup hsubset).length_le
    rw [replaced, List.length_map, List.length_map] at hlength
    omega
  | succ turns ih =>
    by_cases hend : kid = toKid
    · exact ⟨_, by rw [walkRotations, if_pos hend]⟩
    cases hnext : byOld rotations kid with
    | none => exact ⟨_, by rw [walkRotations, if_neg hend, hnext]⟩
    | some next =>
      by_cases hany : ∃ r ∈ chain, r.oldKid = .str kid
      · exact ⟨none, by rw [walkRotations, if_neg hend, hnext]; simp only [any_equalsText.mpr hany, if_true]⟩
      cases hverified : env.verifyKeyRotation address identityPublicKey next with
      | false =>
        refine ⟨none, ?_⟩
        rw [walkRotations, if_neg hend, hnext]
        simp only [hverified, Bool.not_false, if_true, ite_self]
      | true =>
        have hfollows := follows_of_verified hnext hverified
        have hkeys : (replaced (chain ++ [next])).Nodup := by
          rw [replaced, List.map_append, List.map_singleton, hfollows.2.replaces]
          exact List.nodup_append_comm.mp (List.nodup_cons.mpr ⟨not_mem_replaced hchain hany, hnodup⟩)
        rw [walkRotations_succ turns hend hnext hany hverified]
        refine ih (hchain.append (.cons hfollows (.nil _))) hkeys ?_
        rw [List.length_append, List.length_singleton]
        omega

/-- A chain that is returned leads to the key, and replaces no key twice. -/
theorem walkRotations_sound {turns : ℕ} {out : List Rotation}
    (hchain : Leads (Follows env address identityPublicKey rotations) fromKid chain kid)
    (hnodup : (replaced chain).Nodup)
    (h : env.walkRotations address identityPublicKey rotations toKid turns kid chain = some (some out)) :
    Leads (Follows env address identityPublicKey rotations) fromKid out toKid ∧ (replaced out).Nodup := by
  induction turns generalizing chain kid with
  | zero => cases h
  | succ turns ih =>
    by_cases hend : kid = toKid
    · rw [walkRotations, if_pos hend] at h
      obtain rfl := Option.some.inj (Option.some.inj h)
      exact ⟨hend ▸ hchain, hnodup⟩
    cases hnext : byOld rotations kid with
    | none =>
      rw [walkRotations, if_neg hend, hnext] at h
      cases Option.some.inj h
    | some next =>
      by_cases hany : ∃ r ∈ chain, r.oldKid = .str kid
      · rw [walkRotations, if_neg hend, hnext] at h
        simp only [any_equalsText.mpr hany, if_true] at h
        cases Option.some.inj h
      cases hverified : env.verifyKeyRotation address identityPublicKey next with
      | false =>
        rw [walkRotations, if_neg hend, hnext] at h
        simp only [hverified, Bool.not_false, if_true, ite_self] at h
        cases Option.some.inj h
      | true =>
        have hfollows := follows_of_verified hnext hverified
        have hkeys : (replaced (chain ++ [next])).Nodup := by
          rw [replaced, List.map_append, List.map_singleton, hfollows.2.replaces]
          exact List.nodup_append_comm.mp (List.nodup_cons.mpr ⟨not_mem_replaced hchain hany, hnodup⟩)
        rw [walkRotations_succ turns hend hnext hany hverified] at h
        exact ih (hchain.append (.cons hfollows (.nil _))) hkeys h

/-- More turns change no answer. -/
theorem walkRotations_mono {turns : ℕ} {answer : Option (List Rotation)}
    (h : env.walkRotations address identityPublicKey rotations toKid turns kid chain = some answer) (more : ℕ)
    (hmore : turns ≤ more) :
    env.walkRotations address identityPublicKey rotations toKid more kid chain = some answer := by
  induction turns generalizing kid chain more with
  | zero => cases h
  | succ turns ih =>
    obtain ⟨more, rfl⟩ : ∃ n, more = n + 1 := ⟨more - 1, by omega⟩
    rw [walkRotations] at h ⊢
    split at h
    · rename_i hend
      rw [if_pos hend]
      exact h
    · rename_i hend
      rw [if_neg hend]
      cases hnext : byOld rotations kid with
      | none => rw [hnext] at h; exact h
      | some next =>
        rw [hnext] at h
        simp only at h ⊢
        split at h
        · rename_i hany
          rw [if_pos hany]
          exact h
        · rename_i hany
          rw [if_neg hany]
          split at h
          · rename_i hverified
            rw [if_pos hverified]
            exact h
          · rename_i hverified
            rw [if_neg hverified]
            exact ih h more (by omega)

/-- The walk finds the shortest chain of the records that the map holds. -/
theorem walkRotations_complete {turns : ℕ} {rest : List Rotation}
    (hshort : Shortest (Follows env address identityPublicKey rotations) fromKid (chain ++ rest) toKid)
    (hchain : Leads (Follows env address identityPublicKey rotations) fromKid chain kid)
    (hrest : Leads (Follows env address identityPublicKey rotations) kid rest toKid) (hturns : rest.length < turns) :
    env.walkRotations address identityPublicKey rotations toKid turns kid chain = some (some (chain ++ rest)) := by
  induction rest generalizing chain kid turns with
  | nil =>
    obtain ⟨turns, rfl⟩ : ∃ n, turns = n + 1 := ⟨turns - 1, by omega⟩
    cases hrest with
    | nil => rw [walkRotations, if_pos rfl, List.append_nil]
  | cons r rest ih =>
    obtain ⟨turns, rfl⟩ : ∃ n, turns = n + 1 := ⟨turns - 1, by omega⟩
    have hend : kid ≠ toKid := hshort.ne_end hchain
    have hnew : ¬ ∃ r' ∈ chain, r'.oldKid = .str kid := by
      rintro ⟨r', hr', hold⟩
      obtain ⟨before, after, rfl⟩ := List.append_of_mem hr'
      obtain ⟨k, k', hbefore, hlink, -⟩ := hchain.split
      have hk : k = kid := Value.str.inj (hlink.2.replaces.symm.trans hold)
      exact hshort.ne_before hbefore hrest hk.symm
    cases hrest with
    | cons first hafter =>
      have hnewKid : textOf r.newKid = _ := congrArg textOf first.2.replacedBy
      rw [walkRotations_succ turns hend first.1 hnew first.2.verified, hnewKid]
      have happend : chain ++ r :: rest = chain ++ [r] ++ rest := by rw [List.append_assoc]; rfl
      rw [happend] at hshort ⊢
      refine ih hshort (hchain.append (.cons first (.nil _))) hafter ?_
      rw [List.length_cons] at hturns
      omega

theorem rotationChain_ends (rotations : List Rotation) (fromKid toKid : Text) : ∃ answer,
    env.walkRotations address identityPublicKey rotations toKid (rotations.length + 1) fromKid [] = some answer := by
  have hchain : Leads (Follows env address identityPublicKey rotations) fromKid [] fromKid := .nil fromKid
  exact walkRotations_ends hchain List.nodup_nil (by simp)

/-- What is returned is the chain of the records that the map holds, where they lead to the key. -/
theorem rotationChain_isSome : (∃ chain, env.rotationChain address identityPublicKey rotations fromKid toKid =
      some (some chain)) ↔ ∃ chain, Leads (Follows env address identityPublicKey rotations) fromKid chain toKid := by
  constructor
  · rintro ⟨chain, h⟩
    exact ⟨chain, (walkRotations_sound (.nil fromKid) List.nodup_nil h).1⟩
  · rintro ⟨chain, hchain⟩
    obtain ⟨out, hshort⟩ := exists_shortest hchain
    obtain ⟨answer, hanswer⟩ := @rotationChain_ends env address identityPublicKey rotations fromKid toKid
    have hlong : env.walkRotations address identityPublicKey rotations toKid (out.length + 1) fromKid [] =
        some (some ([] ++ out)) := walkRotations_complete hshort (.nil fromKid) hshort.leads (Nat.lt_succ_self _)
    have hmore := walkRotations_mono hanswer (rotations.length + 1 + out.length) (by omega)
    have hmore' := walkRotations_mono hlong (rotations.length + 1 + out.length) (by omega)
    obtain rfl := Option.some.inj (hmore.symm.trans hmore')
    exact ⟨_, hanswer⟩

/-- Where the records of one key agree, the map holds one that verifies for each key that has one. -/
theorem Agree.leads_iff (h : env.Agree address identityPublicKey rotations) :
    (∃ chain, Leads (Follows env address identityPublicKey rotations) fromKid chain toKid) ↔
      ∃ chain, Leads (env.Rotates address identityPublicKey rotations) fromKid chain toKid := by
  constructor
  · rintro ⟨chain, hchain⟩
    exact ⟨chain, hchain.mono fun _ _ _ hlink => hlink.2⟩
  · rintro ⟨chain, hchain⟩
    refine hchain.exists_of_imp fun old r new hlink => ?_
    obtain ⟨r', hr'⟩ := exists_byOld hlink.served hlink.replaces
    obtain ⟨hserved, hold⟩ := byOld_eq_some hr'
    obtain ⟨hnew, hverified⟩ := h r hlink.served r' hserved old hlink.replaces hold
    exact ⟨r', hr', hserved, hverified ▸ hlink.verified, hold, hnew ▸ hlink.replacedBy⟩

/-- A record that does not verify, beside none of its key, ends the walk as if it were not served. -/
theorem walkRotations_unverified {pre post : List Rotation} {r : Rotation}
    (hr : env.verifyKeyRotation address identityPublicKey r = false)
    (halone : ∀ r' ∈ pre ++ post, ∀ k, r.oldKid = .str k → r'.oldKid ≠ .str k) (turns : ℕ) :
    env.walkRotations address identityPublicKey (pre ++ r :: post) toKid turns kid chain =
      env.walkRotations address identityPublicKey (pre ++ post) toKid turns kid chain := by
  induction turns generalizing kid chain with
  | zero => rfl
  | succ turns ih =>
    rw [walkRotations, walkRotations]
    by_cases hkid : r.oldKid = .str kid
    · have hothers : byOld (pre ++ post) kid = none := by
        refine List.find?_eq_none.mpr fun r' hr' htext => ?_
        exact halone r' (List.mem_reverse.mp hr') kid hkid (equalsText_iff.mp htext)
      have hmem : r ∈ pre ++ r :: post := List.mem_append_right _ List.mem_cons_self
      obtain ⟨r', hfind⟩ := exists_byOld hmem hkid
      have hsame : r' = r := by
        obtain ⟨hmem, hold⟩ := byOld_eq_some hfind
        rcases List.mem_append.mp hmem with hmem | hmem
        · exact absurd hold (halone r' (List.mem_append_left _ hmem) kid hkid)
        · rcases List.mem_cons.mp hmem with rfl | hmem
          · rfl
          · exact absurd hold (halone r' (List.mem_append_right _ hmem) kid hkid)
      rw [hothers, hfind, hsame]
      simp only [hr, Bool.not_false, if_true, ite_self]
    · have hfind : byOld (pre ++ r :: post) kid = byOld (pre ++ post) kid := by
        have hnot : equalsText kid r.oldKid = false := Bool.eq_false_iff.mpr fun h => hkid (equalsText_iff.mp h)
        simp only [byOld, List.reverse_append, List.reverse_cons, List.append_assoc, List.singleton_append,
          List.find?_append, List.find?_cons, hnot]
      rw [hfind]
      simp only [ih]

theorem rotationChain_unverified {pre post : List Rotation} {r : Rotation}
    (hr : env.verifyKeyRotation address identityPublicKey r = false)
    (halone : ∀ r' ∈ pre ++ post, ∀ k, r.oldKid = .str k → r'.oldKid ≠ .str k) :
    env.rotationChain address identityPublicKey (pre ++ r :: post) fromKid toKid =
      env.rotationChain address identityPublicKey (pre ++ post) fromKid toKid := by
  obtain ⟨answer, hanswer⟩ := @rotationChain_ends env address identityPublicKey (pre ++ post) fromKid toKid
  have hmore := walkRotations_mono hanswer ((pre ++ r :: post).length + 1) (by simp)
  rw [rotationChain, walkRotations_unverified hr halone, hmore, rotationChain, hanswer]

end walk

/-- The walk ends; a chain that it returns is one of served records that verify, none of them twice; a record
that does not verify changes nothing beside none of its key; and where the records of one key agree, a chain is
returned exactly where the records that verify lead from the one key to the other. -/
theorem rotationChain_of_agree (env : Messenger) (address identityPublicKey : Text) (rotations : List Rotation)
    (fromKid toKid : Text) :
    (∃ answer, env.rotationChain address identityPublicKey rotations fromKid toKid = some answer) ∧
      (∀ chain, env.rotationChain address identityPublicKey rotations fromKid toKid = some (some chain) →
        Leads (env.Rotates address identityPublicKey rotations) fromKid chain toKid ∧ (replaced chain).Nodup) ∧
      (∀ pre r post, rotations = pre ++ r :: post → env.verifyKeyRotation address identityPublicKey r = false →
        (∀ r' ∈ pre ++ post, ∀ kid, r.oldKid = .str kid → r'.oldKid ≠ .str kid) →
        env.rotationChain address identityPublicKey rotations fromKid toKid =
          env.rotationChain address identityPublicKey (pre ++ post) fromKid toKid) ∧
      (env.Agree address identityPublicKey rotations →
        ((∃ chain, env.rotationChain address identityPublicKey rotations fromKid toKid = some (some chain)) ↔
          ∃ chain, Leads (env.Rotates address identityPublicKey rotations) fromKid chain toKid)) := by
  refine ⟨walkRotations_ends (.nil fromKid) List.nodup_nil (by simp), fun chain h => ?_, ?_, fun hagree => ?_⟩
  · obtain ⟨hleads, hnodup⟩ := walkRotations_sound (.nil fromKid) List.nodup_nil h
    exact ⟨hleads.mono fun _ _ _ hlink => hlink.2, hnodup⟩
  · rintro pre r post rfl hr halone
    exact rotationChain_unverified hr halone
  · rw [rotationChain_isSome, hagree.leads_iff]

/-! ## A record that shadows another -/

section sample

/-- A suite under which one text is every signature. -/
def sampleVerifier : Messenger where
  parseJson _ := none
  sha384Hex := id
  addressOf _ := some (List.replicate 96 (.char 'a'))
  verifySignature signature _ _ := signature == lit "signed"
  identityKeyFor _ := none

def sampleKid (c : Char) : Text := List.replicate 32 (.char c)

def sampleRotation (old new : Char) (signature : String) : Rotation :=
  ⟨.str (sampleKid old), .str (sampleKid new), .str (lit Server.kemAlg), .num (.ofNat 0), .str (lit signature)⟩

theorem verified_sampleRotation : sampleVerifier.verifyKeyRotation (List.replicate 96 (.char 'a')) []
    (sampleRotation 'b' 'c' "signed") = true := by decide +kernel

theorem not_verified_sampleRotation : sampleVerifier.verifyKeyRotation (List.replicate 96 (.char 'a')) []
    (sampleRotation 'b' 'd' "forged") = false := by decide +kernel

theorem leads_sampleRotation {rotations : List Rotation} (h : sampleRotation 'b' 'c' "signed" ∈ rotations) :
    Leads (sampleVerifier.Rotates (List.replicate 96 (.char 'a')) [] rotations) (sampleKid 'b')
      [sampleRotation 'b' 'c' "signed"] (sampleKid 'c') :=
  .cons ⟨h, verified_sampleRotation, rfl, rfl⟩ (.nil _)

theorem rotationChain_sample : ∃ chain, sampleVerifier.rotationChain (List.replicate 96 (.char 'a')) []
    [sampleRotation 'b' 'c' "signed"] (sampleKid 'b') (sampleKid 'c') = some (some chain) := by
  have hagree : sampleVerifier.Agree (List.replicate 96 (.char 'a')) [] [sampleRotation 'b' 'c' "signed"] := by
    intro r hr r' hr' kid _ _
    rw [List.mem_singleton.mp hr, List.mem_singleton.mp hr']
    exact ⟨rfl, rfl⟩
  exact ((rotationChain_of_agree sampleVerifier _ [] _ _ _).2.2.2 hagree).mpr
    ⟨_, leads_sampleRotation List.mem_cons_self⟩

/-- A forged record that is served after a genuine one of the same key hides it. -/
theorem not_rotationChain_complete : ¬ ∀ (env : Messenger) (address identityPublicKey : Text)
    (rotations : List Rotation) (fromKid toKid : Text),
      (∃ chain, env.rotationChain address identityPublicKey rotations fromKid toKid = some (some chain)) ↔
        ∃ chain, Leads (env.Rotates address identityPublicKey rotations) fromKid chain toKid := by
  intro h
  obtain ⟨chain, hchain⟩ := rotationChain_isSome.mp ((h sampleVerifier (List.replicate 96 (.char 'a')) []
    [sampleRotation 'b' 'c' "signed", sampleRotation 'b' 'd' "forged"] (sampleKid 'b') (sampleKid 'c')).mpr
      ⟨_, leads_sampleRotation List.mem_cons_self⟩)
  have hlast : byOld [sampleRotation 'b' 'c' "signed", sampleRotation 'b' 'd' "forged"] (sampleKid 'b') =
      some (sampleRotation 'b' 'd' "forged") := by simp [byOld, equalsText, sampleRotation]
  generalize hto : sampleKid 'c' = toKid at hchain
  cases hchain with
  | nil => exact absurd hto (by decide)
  | cons first rest =>
    obtain rfl := Option.some.inj (hlast.symm.trans first.1)
    exact absurd first.2.verified (by rw [not_verified_sampleRotation]; decide)

end sample

end Messenger

end Kryptolog.Client

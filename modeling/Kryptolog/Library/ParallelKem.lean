import Kryptolog.Library.Fallible

/-! # Key encapsulation in parallel

A key agreement read as a KEM, and what the two parties know who use two KEMs side by side. The random
values are arguments and every operation may fail. Nothing here mentions this repository.
-/

namespace Kryptolog.ParallelKem
set_option autoImplicit false

open Fallible

structure Kem (ε Seed Public Random Cipher Key : Type) where
  publicKey : Seed → Except ε Public
  encapsulate : Public → Random → Except ε (Cipher × Key)
  decapsulate : Cipher → Seed → Except ε Key

/-- A key agreement: what a scalar publishes, and what it makes of a point. -/
structure Agreement (ε Scalar Point Secret : Type) where
  publish : Scalar → Point
  agree : Scalar → Point → Except ε Secret

section kems

variable {ε Scalar Point Secret : Type}

/-- The sender agrees under a scalar of its own and sends what that scalar publishes. -/
def Agreement.kem (agreement : Agreement ε Scalar Point Secret) : Kem ε Scalar Point Scalar Point Secret where
  publicKey scalar := .ok (agreement.publish scalar)
  encapsulate point ephemeral := do
    let secret ← agreement.agree ephemeral point
    .ok (agreement.publish ephemeral, secret)
  decapsulate point scalar := agreement.agree scalar point

variable {Seed Public Random Cipher Key : Type}

/-- The key that goes to the owner of the seed under these random values arrives, as `key`. -/
def Kem.Arrives (kem : Kem ε Seed Public Random Cipher Key) (seed : Seed) (random : Random)
    (exchange : Public × Cipher × Key) : Prop :=
  kem.publicKey seed = .ok exchange.1 ∧ kem.encapsulate exchange.1 random = .ok exchange.2 ∧
    kem.decapsulate exchange.2.1 seed = .ok exchange.2.2

theorem Agreement.arrives {agreement : Agreement ε Scalar Point Secret} {scalar ephemeral : Scalar}
    {secret : Secret} (hsent : agreement.agree ephemeral (agreement.publish scalar) = .ok secret)
    (hreceived : agreement.agree scalar (agreement.publish ephemeral) = .ok secret) :
    agreement.kem.Arrives scalar ephemeral (agreement.publish scalar, agreement.publish ephemeral, secret) := by
  refine ⟨rfl, ?_, hreceived⟩
  change (agreement.agree ephemeral (agreement.publish scalar) >>= _) = _
  rw [hsent]
  rfl

end kems

section parallel

variable {ε S₁ P₁ R₁ C₁ K₁ S₂ P₂ R₂ C₂ K₂ K : Type}

/-- What both parties of an exchange know. -/
structure Exchange (P₁ P₂ C₁ C₂ K₁ K₂ : Type) where
  public₁ : P₁
  public₂ : P₂
  cipher₁ : C₁
  cipher₂ : C₂
  key₁ : K₁
  key₂ : K₂

variable (one : Kem ε S₁ P₁ R₁ C₁ K₁) (two : Kem ε S₂ P₂ R₂ C₂ K₂)

/-- The sender's side of an exchange. -/
def sent (key : P₁ × P₂) (random : R₁ × R₂) : Except ε (Exchange P₁ P₂ C₁ C₂ K₁ K₂) := do
  let (cipher₁, key₁) ← one.encapsulate key.1 random.1
  let (cipher₂, key₂) ← two.encapsulate key.2 random.2
  .ok ⟨key.1, key.2, cipher₁, cipher₂, key₁, key₂⟩

/-- The recipient's side, with the public keys that the seeds name. -/
def received (cipher : C₁ × C₂) (seed : S₁ × S₂) : Except ε (Exchange P₁ P₂ C₁ C₂ K₁ K₂) := do
  let public₁ ← one.publicKey seed.1
  let public₂ ← two.publicKey seed.2
  let key₁ ← one.decapsulate cipher.1 seed.1
  let key₂ ← two.decapsulate cipher.2 seed.2
  .ok ⟨public₁, public₂, cipher.1, cipher.2, key₁, key₂⟩

variable {one two} {exchange₁ : P₁ × C₁ × K₁} {exchange₂ : P₂ × C₂ × K₂}

/-- Where the keys of both KEMs arrive, the two parties know the same. -/
theorem sent_eq_received (seed : S₁ × S₂) (random : R₁ × R₂)
    (h₁ : one.Arrives seed.1 random.1 exchange₁)
    (h₂ : two.Arrives seed.2 random.2 exchange₂) : ∃ exchange : Exchange P₁ P₂ C₁ C₂ K₁ K₂,
      sent one two (exchange₁.1, exchange₂.1) random = .ok exchange ∧
      received one two (exchange₁.2.1, exchange₂.2.1) seed = .ok exchange ∧
      exchange.cipher₁ = exchange₁.2.1 ∧ exchange.cipher₂ = exchange₂.2.1 := by
  obtain ⟨hpublic₁, hencapsulate₁, hdecapsulate₁⟩ := h₁
  obtain ⟨hpublic₂, hencapsulate₂, hdecapsulate₂⟩ := h₂
  refine ⟨⟨exchange₁.1, exchange₂.1, exchange₁.2.1, exchange₂.2.1, exchange₁.2.2, exchange₂.2.2⟩, ?_, ?_, rfl, rfl⟩
  · simp only [sent, hencapsulate₁, hencapsulate₂, ok_bind]
  · simp only [received, hpublic₁, hpublic₂, hdecapsulate₁, hdecapsulate₂, ok_bind]

end parallel

end Kryptolog.ParallelKem

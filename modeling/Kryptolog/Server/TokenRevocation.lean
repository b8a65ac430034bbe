import Kryptolog.Server.AccountPoints
import Kryptolog.Server.DirectoryIntegrity

/-! # Tokens after a logout

A token carries the version that its account had when it was minted, and versions only grow. A
logout writes the version that it read plus one, so it ends every token minted before it as long
as the row still has the version that it read.
-/

namespace Kryptolog.Server
set_option autoImplicit false

open Tables Fallible ReadCommitted Runs

section changes

variable {c : Accounts} {e : AccountChange}

/-! ## Versions grow -/

/-- Every account is still there, with its version or a later one. -/
def VersionsGrow (c d : Accounts) : Prop :=
  ∀ u ∈ c.users, ∃ u' ∈ d.users, u'.address = u.address ∧ u.tokenVersion ≤ u'.tokenVersion

theorem VersionsGrow.refl (c : Accounts) : VersionsGrow c c := fun u hu => ⟨u, hu, rfl, le_rfl⟩

theorem VersionsGrow.of_users {c d : Accounts} (h : d.users = c.users) : VersionsGrow c d :=
  fun u hu => ⟨u, h ▸ hu, rfl, le_rfl⟩

theorem VersionsGrow.trans {c₁ c₂ c₃ : Accounts} (h : VersionsGrow c₁ c₂)
    (h' : VersionsGrow c₂ c₃) : VersionsGrow c₁ c₃ := by
  intro u hu
  obtain ⟨u', hu', ha, hv⟩ := h u hu
  obtain ⟨u'', hu'', ha', hv'⟩ := h' u' hu'
  exact ⟨u'', hu'', ha'.trans ha, hv.trans hv'⟩

/-- The change sets no version back. -/
def AccountChange.Advances (c : Accounts) : AccountChange → Prop
  | .updateUser a upd => ∀ u ∈ c.users, u.address = a → u.tokenVersion ≤ (upd.set u).tokenVersion
  | .logOut a version => ∀ u ∈ c.users, u.address = a → u.tokenVersion ≤ version
  | _ => True

theorem versionsGrow_apply (h : e.Advances c) : VersionsGrow c (e.apply c) := by
  cases e with
  | insertUser row => exact fun u hu => ⟨u, Table.mem_insert_of_mem hu, rfl, le_rfl⟩
  | updateUser a upd =>
    intro u hu
    have himage := Table.update_of_mem hu (·.address == a) upd.set (fun _ => rfl)
    by_cases ha : u.address = a
    · rw [if_pos (beq_iff_eq.mpr ha)] at himage
      exact ⟨_, himage, rfl, h u hu ha⟩
    · rw [if_neg (by simpa using ha)] at himage
      exact ⟨u, himage, rfl, le_rfl⟩
  | logOut a version =>
    intro u hu
    have himage := Table.update_of_mem hu (·.address == a)
      (fun u => { u with tokenVersion := version }) (fun _ => rfl)
    by_cases ha : u.address = a
    · rw [if_pos (beq_iff_eq.mpr ha)] at himage
      exact ⟨_, himage, rfl, h u hu ha⟩
    · rw [if_neg (by simpa using ha)] at himage
      exact ⟨u, himage, rfl, le_rfl⟩
  | _ => exact .refl c

end changes

section tokens

variable {prim : KeyPrimitives} {cfg : Config} {c d : Accounts} {token : Token}
  {p next : AccountPoint}

def HasVersion (c : Accounts) (token : Token) : Prop :=
  ∃ u ∈ c.users, u.address = lower token.sub ∧ token.tv ≤ u.tokenVersion

def Outdated (c : Accounts) (token : Token) : Prop :=
  ∃ u ∈ c.users, u.address = lower token.sub ∧ token.tv < u.tokenVersion

theorem HasVersion.grow (h : HasVersion c token) (hgrow : VersionsGrow c d) :
    HasVersion d token := by
  obtain ⟨u, hu, ha, hv⟩ := h
  obtain ⟨u', hu', ha', hv'⟩ := hgrow u hu
  exact ⟨u', hu', ha'.trans ha, hv.trans hv'⟩

theorem Outdated.grow (h : Outdated c token) (hgrow : VersionsGrow c d) : Outdated d token := by
  obtain ⟨u, hu, ha, hv⟩ := h
  obtain ⟨u', hu', ha', hv'⟩ := hgrow u hu
  exact ⟨u', hu', ha'.trans ha, hv.trans_le hv'⟩

/-- A token of an earlier version than its account's does not validate. -/
theorem Outdated.invalid (h : Outdated c token) : userForToken c.toDatabase token = none := by
  obtain ⟨u, hu, ha, hv⟩ := h
  unfold userForToken
  cases hfind : findUser c.toDatabase (lower token.sub) with
  | none => rfl
  | some u' =>
    obtain ⟨hu', ha'⟩ := findUser_mem hfind
    obtain rfl : u' = u := Table.eq_of_key hu' hu (ha'.trans ha.symm)
    have htv : (token.tv == u'.tokenVersion) = false := beq_eq_false_iff_ne.mpr (Nat.ne_of_lt hv)
    simp [Option.filter, htv]

/-- The tokens handed out carry no later version than their account's, and those handed out before
a logout an earlier one. -/
structure TokensSound (c : Accounts) : Prop where
  minted : ∀ token, .minted token ∈ c.history → HasVersion c token
  revoked : ∀ earlier later a, c.history = earlier ++ .loggedOut a :: later →
    ∀ token, .minted token ∈ earlier → lower token.sub = a → Outdated c token

/-- The token that a point hands out. -/
def AccountPoint.minting : AccountPoint → Option Token
  | .mint token | .minted token => some token
  | _ => none

/-- What the points know, with the version of the token that is minted. -/
def TokenFacts (c : Accounts) (p : AccountPoint) : Prop :=
  Knows c p ∧ ∀ token, p.minting = some token → HasVersion c token

/-- A logout commits while the row has the version that it read. -/
def VersionAsRead (c : Accounts) : AccountPoint → Prop
  | .loggedOut a version => ∀ u ∈ c.users, u.address = a → u.tokenVersion + 1 = version
  | _ => True

/-- A logout writes no earlier version than the row has, and a later one than every token that was handed out. -/
def VersionIsLater (c : Accounts) : AccountPoint → Prop
  | .loggedOut a version => (∀ u ∈ c.users, u.address = a → u.tokenVersion ≤ version) ∧
      ∀ token, .minted token ∈ c.history → lower token.sub = a → token.tv < version
  | _ => True

theorem VersionAsRead.later (hbase : TokensSound c) (h : VersionAsRead c p) : VersionIsLater c p := by
  cases p with
  | loggedOut a version =>
    refine ⟨fun u hu ha => ?_, fun token htoken ha => ?_⟩
    · have hread := h u hu ha
      omega
    · obtain ⟨u, hu, hua, hv⟩ := hbase.minted token htoken
      have hread := h u hu (hua.trans ha)
      omega
  | _ => trivial

/-! ## The points -/

theorem minting_afterIdentity {now : Time} {admitted : Bool} {req : LoginRequest}
    (u : Option User) : (afterIdentity prim now admitted req u).minting = none := by
  cases u with
  | none => rfl
  | some u =>
    simp only [afterIdentity]
    split
    · split
      · rfl
      · rfl
    · split
      · rfl
      · split
        · rfl
        · rfl

theorem minting_afterName {now : Time} {admitted : Bool} {req : LoginRequest}
    (loaded : Option User) (name : Except Fault String) :
    (afterName prim now admitted req loaded name).minting = none := by
  cases name with
  | error fault => rfl
  | ok username =>
    cases loaded with
    | none =>
      simp only [afterName]
      split
      · rfl
      · rfl
    | some u =>
      simp only [afterName]
      split
      · rfl
      · rfl

theorem minting_entry (call : AccountCall) : call.entry.minting = none := by
  obtain ⟨now, token, request⟩ := call
  cases request with
  | getNonce address value =>
    simp only [AccountCall.entry]
    split
    · rfl
    · rfl
  | login | logout | deleteAccount | eraseConversation | createTransfer | claimTransfer => rfl

/-- A token is minted with the version of the row that was read. -/
theorem hasVersion_select {select : Accounts → AccountPoint}
    (h : (accounts prim cfg).op p = .select select) (htoken : (select c).minting = some token) :
    HasVersion c token := by
  cases p with
  | authenticate now token' request =>
    cases h
    dsimp only at htoken
    split at htoken
    · cases htoken
    · cases request <;> cases htoken
  | verifyLogin now admitted req =>
    cases h
    dsimp only at htoken
    split at htoken
    · cases htoken
    · cases htoken
  | readIdentity now admitted req =>
    cases h
    cases (minting_afterIdentity _).symm.trans htoken
  | nameIdentity now admitted req loaded =>
    cases h
    cases (minting_afterName _ _).symm.trans htoken
  | refreshIdentity a =>
    cases h
    dsimp only at htoken
    split at htoken
    · cases htoken
    · next u hu =>
      cases htoken
      obtain ⟨hmem, -⟩ := findUser_mem hu
      exact ⟨u, hmem, (lower_text u.address).symm, le_rfl⟩
  | readTransfer now id =>
    cases h
    dsimp only at htoken
    split at htoken
    · cases htoken
    · cases htoken
  | _ => cases h

theorem minting_write {exec : Accounts → Accounts → Outcome AccountRow AccountChange AccountPoint}
    (h : (accounts prim cfg).op p = .write exec) (snap cur : Accounts)
    (htoken : (exec snap cur).next.minting = some token) : p.minting = some token := by
  have hgoes := goes_of_write h snap cur
  revert hgoes htoken
  generalize (exec snap cur).next = q
  intro htoken hgoes
  cases hgoes with
  | minted token' => exact htoken
  | _ => cases htoken

theorem minting_commit (h : (accounts prim cfg).op p = .commit next) : next.minting = none := by
  cases p with
  | claimed now by' won =>
    cases h
    split
    · cases by' with
      | login | deletion | erase => rfl
    · rfl
  | transferTaken now t won =>
    cases h
    split
    · rfl
    · rfl
  | nonceInserted | identityInserted | identityUpdated | minted | loggedOut | roundDone
  | accountStripped | transferInserted | transferDropped => cases h; rfl
  | _ => cases h

/-- The changes of a commit set no version back. -/
theorem versionsGrow_commit (hfacts : TokenFacts c p) (hready : VersionIsLater c p)
    (h : (accounts prim cfg).op p = .commit next) :
    VersionsGrow c (AccountChange.applyAll c p.log) := by
  cases p with
  | accountStripped now u mode swept =>
    have hstrip : (AccountChange.updateUser u.address
        (.between u (stripIdentity mode now u))).Advances
          (AccountChange.apply c (.deleteNonces swept)) := by
      intro u' hu' ha
      obtain ⟨hmem, -⟩ := findUser_mem hfacts.1.1
      obtain rfl : u' = u := Table.eq_of_key hu' hmem ha
      rw [UserUpdate.set_between]
      exact Nat.le_succ _
    exact versionsGrow_apply hstrip
  | identityInserted row => exact versionsGrow_apply (e := .insertUser row) trivial
  | identityUpdated a upd =>
    have hadvances : (AccountChange.updateUser a upd).Advances c := by
      intro u _ _
      have hnone : upd.tokenVersion = none := hfacts.1.1
      simp [UserUpdate.set, hnone]
    exact versionsGrow_apply hadvances
  | loggedOut a version =>
    have hadvances : (AccountChange.logOut a version).Advances c := hready.1
    exact versionsGrow_apply hadvances
  | claimed now by' won =>
    cases won with
    | none => exact .of_users rfl
    | some n => exact .of_users rfl
  | transferTaken now t won =>
    cases won with
    | false => exact .of_users rfl
    | true => exact .of_users rfl
  | nonceInserted | transferInserted | minted | roundDone | transferDropped => exact .of_users rfl
  | _ => cases h

/-- What was handed out before stays sound, and so does what the step hands out or ends. -/
theorem TokensSound.extend {new : List Seen} (h : TokensSound c) (hgrow : VersionsGrow c d)
    (hhistory : d.history = c.history ++ new)
    (hminted : ∀ token, .minted token ∈ new → HasVersion d token)
    (hrevoked : ∀ earlier later a, new = earlier ++ .loggedOut a :: later →
      earlier = [] ∧ ∀ token, .minted token ∈ c.history → lower token.sub = a → Outdated d token) :
    TokensSound d where
  minted := by
    intro token htoken
    rw [hhistory, List.mem_append] at htoken
    rcases htoken with htoken | htoken
    · exact (h.minted token htoken).grow hgrow
    · exact hminted token htoken
  revoked := by
    intro earlier later a hsplit token htoken ha
    rw [hhistory] at hsplit
    rcases List.append_eq_append_iff.mp hsplit with ⟨early, rfl, hnew⟩ | ⟨late, hold, hlate⟩
    · obtain ⟨rfl, hout⟩ := hrevoked early later a hnew
      rw [List.append_nil] at htoken
      exact hout token htoken ha
    · cases late with
      | nil =>
        rw [List.append_nil] at hold
        obtain ⟨-, hout⟩ := hrevoked [] later a hlate.symm
        exact hout token (hold ▸ htoken) ha
      | cons x late =>
        obtain ⟨rfl, rfl⟩ := List.cons.inj hlate
        exact (h.revoked earlier late a hold token htoken ha).grow hgrow

/-- A logout ends the tokens that were handed out. -/
theorem outdated_logOut {a : Address} {version : ℕ} (hbase : TokensSound c)
    (hready : VersionIsLater c (.loggedOut a version)) (htoken : .minted token ∈ c.history)
    (ha : lower token.sub = a) : Outdated ((AccountChange.logOut a version).apply c) token := by
  obtain ⟨u, hu, hua, -⟩ := hbase.minted token htoken
  have himage := Table.update_of_mem hu (·.address == a)
    (fun u => { u with tokenVersion := version }) (fun _ => rfl)
  rw [if_pos (beq_iff_eq.mpr (hua.trans ha))] at himage
  exact ⟨_, himage, hua, hready.2 token htoken ha⟩

/-- So does a deletion. -/
theorem outdated_strip {now : Time} {mode : Mode} {u : User} (hfind : findUser c.toDatabase u.address = some u)
    (h : HasVersion c token) (ha : lower token.sub = u.address) :
    Outdated ((AccountChange.updateUser u.address (.between u (stripIdentity mode now u))).apply c) token := by
  obtain ⟨hu, -⟩ := findUser_mem hfind
  obtain ⟨u', hu', hua, hv⟩ := h
  obtain rfl : u' = u := Table.eq_of_key hu' hu (hua.trans ha)
  have himage := Table.update_of_mem hu (·.address == u'.address)
    (UserUpdate.between u' (stripIdentity mode now u')).set (fun _ => rfl)
  rw [if_pos (beq_iff_eq.mpr rfl), UserUpdate.set_between] at himage
  exact ⟨_, himage, hua, Nat.lt_succ_of_le hv⟩

theorem tokensSound_commit (hbase : TokensSound c) (hfacts : TokenFacts c p)
    (hready : VersionIsLater c p) (h : (accounts prim cfg).op p = .commit next) :
    TokensSound (AccountChange.applyAll c p.log) := by
  have hgrow := versionsGrow_commit hfacts hready h
  refine hbase.extend hgrow history_applyAll ?_ ?_
  · intro token htoken
    obtain rfl : p = .minted token := seen_at htoken
    exact (hfacts.2 token rfl).grow hgrow
  · intro earlier later a hnew
    have hmem : Seen.loggedOut a ∈ p.log.flatMap AccountChange.seen := by
      rw [hnew]
      exact List.mem_append_right _ List.mem_cons_self
    obtain ⟨version, rfl⟩ := seen_at hmem
    refine ⟨?_, fun token htoken ha => outdated_logOut hbase hready htoken ha⟩
    cases earlier with
    | nil => rfl
    | cons x earlier =>
      have hlen := congrArg List.length hnew
      simp [AccountPoint.log, AccountChange.seen] at hlen

theorem tokenRule : PointRule (accounts prim cfg) AccountPoint.log AccountPoint.locks TokensSound
    TokenFacts VersionIsLater where
  entry c call _ := by
    refine ⟨knows_entry call, fun token htoken => ?_⟩
    cases (minting_entry call).symm.trans htoken
  select c p select _ _ h := by
    have hidle := (idle_of_select h).1
    rw [hidle]
    exact ⟨knows_select h, fun token htoken => hasVersion_select h htoken⟩
  write c p exec snap _ hfacts h :=
    ⟨knows_write hfacts.1 h snap, fun token htoken => hfacts.2 token (minting_write h _ _ htoken)⟩
  commit c p next hbase hfacts h hready := by
    refine ⟨tokensSound_commit hbase hfacts hready h, knows_commit h, fun token htoken => ?_⟩
    cases (minting_commit h).symm.trans htoken
  stable c p next q _ hfacts h hready hq hlocks :=
    ⟨knows_stable hq.1 hlocks,
      fun token htoken => (hq.2 token htoken).grow (versionsGrow_commit hfacts hready h)⟩

end tokens

/-! ## Runs -/

/-- The run starts with tokens out that carry at most the version of their account. -/
def TokensOut (c : Accounts) : Prop :=
  ∀ x ∈ c.history, ∃ token, x = .minted token ∧ HasVersion c token

theorem TokensOut.sound {c : Accounts} (h : TokensOut c) : TokensSound c where
  minted := by
    intro token htoken
    obtain ⟨token', heq, hv⟩ := h _ htoken
    cases heq
    exact hv
  revoked := by
    intro earlier later a hsplit
    have hmem : Seen.loggedOut a ∈ c.history := by
      rw [hsplit]
      exact List.mem_append_right _ List.mem_cons_self
    obtain ⟨token, heq, -⟩ := h _ hmem
    cases heq

/-- In a run in which every logout commits while the row still has the version that it read, a
token that was minted before a logout of its account does not validate after it. -/
theorem logout_revokes {prim : KeyPrimitives} {cfg : Config} {c₀ : Accounts}
    {as : List (Action AccountCall)}
    {s : State Accounts AccountRow AccountChange AccountPoint} (hstart : TokensOut c₀)
    (hrun : Run (restrict (Prepared VersionAsRead) (ofPartial (accounts prim cfg).step))
      (.start c₀) as s) {earlier later : List Seen} {a : Address}
    (hlogout : s.committed.history = earlier ++ .loggedOut a :: later) {token : Token}
    (hminted : .minted token ∈ earlier) (ha : lower token.sub = a) :
    userForToken s.committed.toDatabase token = none := by
  have hgood := (tokenRule.ready fun _ _ hbase => VersionAsRead.later hbase).run_holds tracking_accounts hrun
    (.start hstart.sound)
  exact (hgood.base.revoked earlier later a hlogout token hminted ha).invalid

/-! ## A logout that comes late -/

/-- A login of the sample identity, with or without an encryption key. -/
def sampleLogin (key : Option Char) : LoginRequest where
  address := sampleText 96 '1'
  identityPublicKey := sampleIdentity
  signature :=
    match loginMessage "0a" "https://sample" "sample" (key.map sampleKey) with
    | .ok message => sampleIdentity ++ message
    | .error _ => ""
  nonce := "0a"
  origin := "https://sample"
  deployment := "sample"
  encryptionPublicKey := key.map sampleKey
  encryptionKeyAttestation := key.map fun c => sampleAttestation (sampleKey c)
  username := none
  identityKey_le := length_sampleIdentity.le

theorem drop_replicate_append {α : Type} (n : ℕ) (x : α) (xs : List α) :
    (List.replicate n x ++ xs).drop n = xs := List.drop_left' List.length_replicate

theorem isValidIdentityKey_sample : isValidIdentityKey sampleKeyPrimitives sampleIdentity = true := by
  have hdrop : sampleIdentity.toList.drop (2 * 1952) = '0' :: '4' :: List.replicate 192 '1' := by
    rw [toList_sampleIdentity, show 2 * 1952 = 3904 from rfl, drop_replicate_append]
  have hpoint : isValidP384Point sampleKeyPrimitives ('0' :: '4' :: List.replicate 192 '1') =
      true := by
    rw [isValidP384Point, List.length_cons, List.length_cons, List.length_replicate]
    rfl
  rw [isValidIdentityKey, matchHex_of_all length_sampleIdentity all_sampleIdentity,
    hexBytes_of_all all_sampleIdentity, hdrop, hpoint]
  rfl

theorem identityBindsAddress_sample :
    identityBindsAddress sampleKeyPrimitives sampleIdentity (sampleText 96 '1') = true := by
  rw [identityBindsAddress, isValidAddress_sample, addressOf_sample]
  exact beq_self_eq_true _

theorem verifyLoginSignature_sample {key : Option Char} {message : String}
    (h : loginMessage "0a" "https://sample" "sample" (key.map sampleKey) = .ok message) :
    verifyLoginSignature sampleKeyPrimitives.toPrimitives (sampleLogin key) = true := by
  simp only [verifyLoginSignature, sampleLogin, h]
  exact beq_self_eq_true _

/-- The checks of a login without an encryption key, passed. -/
theorem verifyLoginPayload_eq_ok {prim : KeyPrimitives} {cfg : Config} {req : LoginRequest}
    {address : Address} (hsite : checkSignedForThisServer cfg req.origin req.deployment = .ok ())
    (hbinds : identityBindsAddress prim req.identityPublicKey address.text = true)
    (hvalid : isValidIdentityKey prim req.identityPublicKey = true)
    (hsig : verifyLoginSignature prim.toPrimitives req = true)
    (hkey : req.encryptionPublicKey = none) (hattestation : req.encryptionKeyAttestation = none) :
    verifyLoginPayload prim cfg req address = .ok () := by
  simp [verifyLoginPayload, hsite, hbinds, hvalid, hsig, hkey, hattestation, refuseIf, bind,
    Except.bind]

theorem verifyLoginPayload_sample : verifyLoginPayload sampleKeyPrimitives sampleConfig
    (sampleLogin none) (lower (sampleLogin none).address) = .ok () := by
  rw [show lower (sampleLogin none).address = (sampleServed '2' none).address from
    lower_text (sampleServed '2' none).address]
  have hsite : checkSignedForThisServer sampleConfig "https://sample" "sample" = .ok () := by decide
  have hbinds : identityBindsAddress sampleKeyPrimitives (sampleLogin none).identityPublicKey
      (sampleServed '2' none).address.text = true := identityBindsAddress_sample
  have hsig : verifyLoginSignature sampleKeyPrimitives.toPrimitives (sampleLogin none) = true :=
    verifyLoginSignature_sample rfl
  exact verifyLoginPayload_eq_ok hsite hbinds isValidIdentityKey_sample hsig rfl rfl

/-- The sample account after some logouts. -/
def sampleVersion (version : ℕ) : User := { sampleServed '2' none with tokenVersion := version }

def sampleAccounts (version : ℕ) (nonces : Table Nonce) (history : List Seen) : Accounts where
  __ := Database.empty
  users := ⟨[sampleVersion version], List.nodup_singleton _⟩
  nonces := nonces
  transfers := .empty
  history := history

/-- A challenge for the sample account. -/
def sampleNonce : Nonce := ⟨"0a", (sampleServed '2' none).address, 300000⟩

def sampleNonces : Table Nonce := ⟨[sampleNonce], List.nodup_singleton _⟩

def sampleMachine : Machine Accounts AccountRow AccountChange AccountPoint AccountCall :=
  accounts sampleKeyPrimitives sampleConfig

def sampleToken (version : ℕ) : Token := ⟨sampleText 96 '1', version⟩

def sampleLogout : Action AccountCall := .arrive ⟨0, sampleToken 0, .logout⟩

theorem tokensOut_sample :
    TokensOut (sampleAccounts 0 sampleNonces [.minted (sampleToken 0)]) := by
  intro x hx
  obtain rfl := List.mem_singleton.mp hx
  exact ⟨_, rfl, sampleVersion 0, List.mem_singleton_self _,
    (lower_text (sampleVersion 0).address).symm, le_rfl⟩

/-- A logout of the sample account is about to commit. -/
def sampleLoggedOut : State Accounts AccountRow AccountChange AccountPoint where
  committed := sampleAccounts 0 sampleNonces [.minted (sampleToken 0)]
  sessions := [some ⟨.loggedOut (sampleVersion 0).address 1, none, [.user (sampleVersion 0).address],
    [.logOut (sampleVersion 0).address 1]⟩]

theorem run_logout_sample : Run (ofPartial sampleMachine.step)
    (.start (sampleAccounts 0 sampleNonces [.minted (sampleToken 0)]))
    [sampleLogout, .select 0, .start 0, .finish 0] sampleLoggedOut := Run.ofPartial_foldlM _ _ _ _ rfl

theorem versionAsRead_sample : Prepared (ρ := AccountCall) VersionAsRead sampleLoggedOut (.commit 0) := by
  rintro _ ⟨rfl⟩ u hu _
  obtain rfl : u = sampleVersion 0 := List.mem_singleton.mp hu
  rfl

/-- A logout ends the token that came with it. -/
theorem logout_revokes_sample : ∃ s,
    Run (restrict (Prepared VersionAsRead) (ofPartial sampleMachine.step))
        (.start (sampleAccounts 0 sampleNonces [.minted (sampleToken 0)]))
        [sampleLogout, .select 0, .start 0, .finish 0, .commit 0] s ∧
      userForToken s.committed.toDatabase (sampleToken 0) = none := by
  have hcommit : ofPartial sampleMachine.step sampleLoggedOut (.commit 0)
      ⟨sampleAccounts 1 sampleNonces
        [.minted (sampleToken 0), .loggedOut (sampleVersion 0).address], [some (.fresh .ended)]⟩ :=
    rfl
  have hprepared : Run (restrict (Prepared VersionAsRead) (ofPartial sampleMachine.step)) _ _ _ :=
    prepared_of_no_commit run_logout_sample (by decide)
  have hrun := hprepared.append (.single ⟨versionAsRead_sample, hcommit⟩)
  have hsplit : [Seen.minted (sampleToken 0), .loggedOut (sampleVersion 0).address] =
      [.minted (sampleToken 0)] ++ .loggedOut (sampleVersion 0).address :: [] := rfl
  exact ⟨_, hrun, logout_revokes tokensOut_sample hrun hsplit (List.mem_singleton_self _)
    (lower_text (sampleVersion 0).address)⟩

/-- A login of the sample account passes its checks, and goes on to read the version of the account. -/
theorem run_login_sample (i version : ℕ) {d : State Accounts AccountRow AccountChange AccountPoint}
    (hsession : d.session i = some (.fresh (.verifyLogin 0 true (sampleLogin none))))
    (hfind : findUser d.committed.toDatabase (lower (sampleLogin none).address) = some (sampleVersion version)) :
    Run (ofPartial sampleMachine.step) d [.select i, .select i]
      (d.put i (some (.fresh (.refreshIdentity (sampleVersion version).address)))) := by
  have hverify : sampleMachine.step d (.select i) =
      some (d.put i (some (.fresh (.readIdentity 0 true (sampleLogin none))))) :=
    Machine.select_eq hsession (op_verifyLogin verifyLoginPayload_sample)
  have hidentity : sampleMachine.step (d.put i (some (.fresh (.readIdentity 0 true (sampleLogin none))))) (.select i) =
      some (d.put i (some (.fresh (.refreshIdentity (sampleVersion version).address)))) := by
    have hop : sampleMachine.op (.readIdentity 0 true (sampleLogin none)) =
        .select fun c => afterIdentity sampleKeyPrimitives 0 true (sampleLogin none)
          (findUser c.toDatabase (lower (sampleLogin none).address)) := rfl
    have hnext : afterIdentity sampleKeyPrimitives 0 true (sampleLogin none)
        (findUser d.committed.toDatabase (lower (sampleLogin none).address)) =
          .refreshIdentity (sampleVersion version).address := by
      rw [hfind]
      exact afterIdentity_unchanged rfl rfl
    have hread : (d.put i (some (.fresh (.readIdentity 0 true (sampleLogin none))))).session i =
        some (.fresh (.readIdentity 0 true (sampleLogin none))) := State.session_put_self hsession
    have hstep := Machine.select_eq hread hop
    rw [State.put_put] at hstep
    exact hstep.trans (congrArg (fun p => some (d.put i (some (.fresh p)))) hnext)
  exact .cons hverify (.single hidentity)

/-- Two logouts have read one version, and the second has committed. A login is at its checks. -/
def sampleOvertaken : State Accounts AccountRow AccountChange AccountPoint where
  committed := sampleAccounts 1 .empty [.minted (sampleToken 0),
    .loggedOut (sampleVersion 0).address, .claimed sampleNonce (sampleVersion 0).address 0]
  sessions := [some (.fresh (.logOut (sampleVersion 0))), some (.fresh .ended),
    some (.fresh (.verifyLogin 0 true (sampleLogin none)))]

/-- Two logouts read one version. Between their commits a login mints a token, and the second
logout writes the version of that token again. -/
theorem logout_overtaken : ¬ ∀ (prim : KeyPrimitives) (cfg : Config) (c₀ : Accounts)
    (as : List (Action AccountCall))
    (s : State Accounts AccountRow AccountChange AccountPoint), TokensOut c₀ →
      Run (ofPartial (accounts prim cfg).step) (.start c₀) as s →
        ∀ earlier later a, s.committed.history = earlier ++ .loggedOut a :: later →
          ∀ token, .minted token ∈ earlier → lower token.sub = a →
            userForToken s.committed.toDatabase token = none := by
  intro h
  have hread : Run (ofPartial sampleMachine.step)
      (.start (sampleAccounts 0 sampleNonces [.minted (sampleToken 0)]))
      [sampleLogout, .select 0, sampleLogout, .select 1, .start 1, .finish 1, .commit 1,
        .arrive ⟨0, sampleToken 0, .login true (sampleLogin none)⟩, .start 2, .finish 2, .commit 2]
      sampleOvertaken := Run.ofPartial_foldlM _ _ _ _ rfl
  have hlogin := run_login_sample 2 1 (d := sampleOvertaken) rfl rfl
  have hwrite : Run (ofPartial sampleMachine.step)
      (sampleOvertaken.put 2 (some (.fresh (.refreshIdentity (sampleVersion 1).address))))
      [.select 2, .start 2, .finish 2, .commit 2, .start 0, .finish 0, .commit 0]
      ⟨sampleAccounts 1 .empty ([.minted (sampleToken 0), .loggedOut (sampleVersion 0).address,
          .claimed sampleNonce (sampleVersion 0).address 0, .minted (sampleToken 1)] ++
            .loggedOut (sampleVersion 0).address :: []),
        [some (.fresh .ended), some (.fresh .ended), some (.fresh .ended)]⟩ :=
    Run.ofPartial_foldlM _ _ _ _ rfl
  have hrun := hread.append (hlogin.append hwrite)
  have hnone := h sampleKeyPrimitives sampleConfig _ _ _ tokensOut_sample hrun _ [] _ rfl
    (sampleToken 1) (by simp) (lower_text (sampleVersion 0).address)
  have hvalid : userForToken (sampleAccounts 1 .empty []).toDatabase (sampleToken 1) =
      some (sampleVersion 1) := rfl
  cases hvalid.symm.trans hnone

end Kryptolog.Server

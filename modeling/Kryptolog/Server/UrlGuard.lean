import Mathlib.Algebra.Ring.Nat
import Kryptolog.Library.Fallible

/-! # The guard of push endpoints

`security/url_guard.py` and the send of `utils/push.py`. The endpoint is the choice of a user, and so is what
every lookup of its host answers. The guard looks the host up when it builds a session and again when the
session sends; the connection then looks it up a third time.
-/

namespace Kryptolog.Server.UrlGuard
set_option autoImplicit false

open Fallible

/-! ## Addresses -/

/-- An address of Python's `ipaddress`. -/
inductive IpAddress
  | v4 (n : BitVec 32)
  | v6 (n : BitVec 128)
  deriving DecidableEq

/-- A network by its first address and the length of its prefix. -/
structure Network where
  base : ℕ
  prefixlen : ℕ

/-- `address in network`, for addresses of `width` bits. -/
def Network.has (width : ℕ) (net : Network) (n : ℕ) : Bool :=
  n / 2 ^ (width - net.prefixlen) == net.base / 2 ^ (width - net.prefixlen)

abbrev Network.has4 : Network → ℕ → Bool := Network.has 32

abbrev Network.has6 : Network → ℕ → Bool := Network.has 128

/-- `_IPv4Constants._private_networks`. -/
def privateNetworks4 : List Network :=
  [⟨0x0, 8⟩, ⟨0xa000000, 8⟩, ⟨0x7f000000, 8⟩, ⟨0xa9fe0000, 16⟩, ⟨0xac100000, 12⟩, ⟨0xc0000000, 24⟩,
    ⟨0xc00000aa, 31⟩, ⟨0xc0000200, 24⟩, ⟨0xc0a80000, 16⟩, ⟨0xc6120000, 15⟩, ⟨0xc6336400, 24⟩,
    ⟨0xcb007100, 24⟩, ⟨0xf0000000, 4⟩, ⟨0xffffffff, 32⟩]

def privateExceptions4 : List Network := [⟨0xc0000009, 32⟩, ⟨0xc000000a, 32⟩]

/-- `_IPv6Constants._private_networks`. -/
def privateNetworks6 : List Network :=
  [⟨0x1, 128⟩, ⟨0x0, 128⟩, ⟨0xffff00000000, 96⟩, ⟨0x64ff9b000100000000000000000000, 48⟩,
    ⟨0x1000000000000000000000000000000, 64⟩, ⟨0x20010000000000000000000000000000, 23⟩,
    ⟨0x20010db8000000000000000000000000, 32⟩, ⟨0x20020000000000000000000000000000, 16⟩,
    ⟨0xfc000000000000000000000000000000, 7⟩, ⟨0xfe800000000000000000000000000000, 10⟩]

def privateExceptions6 : List Network :=
  [⟨0x20010001000000000000000000000001, 128⟩, ⟨0x20010001000000000000000000000002, 128⟩,
    ⟨0x20010003000000000000000000000000, 32⟩, ⟨0x20010004011200000000000000000000, 48⟩,
    ⟨0x20010020000000000000000000000000, 28⟩, ⟨0x20010030000000000000000000000000, 28⟩]

/-- `_IPv6Constants._reserved_networks`. -/
def reservedNetworks6 : List Network :=
  [⟨0x0, 8⟩, ⟨0x1000000000000000000000000000000, 8⟩, ⟨0x2000000000000000000000000000000, 7⟩,
    ⟨0x4000000000000000000000000000000, 6⟩, ⟨0x8000000000000000000000000000000, 5⟩,
    ⟨0x10000000000000000000000000000000, 4⟩, ⟨0x40000000000000000000000000000000, 3⟩,
    ⟨0x60000000000000000000000000000000, 3⟩, ⟨0x80000000000000000000000000000000, 3⟩,
    ⟨0xa0000000000000000000000000000000, 3⟩, ⟨0xc0000000000000000000000000000000, 3⟩,
    ⟨0xe0000000000000000000000000000000, 4⟩, ⟨0xf0000000000000000000000000000000, 5⟩,
    ⟨0xf8000000000000000000000000000000, 6⟩, ⟨0xfe000000000000000000000000000000, 9⟩]

namespace IpAddress

/-- `ipv4_mapped`. -/
def ipv4Mapped : IpAddress → Option (BitVec 32)
  | v4 _ => none
  | v6 n => if n.toNat / 2 ^ 32 = 0xffff then some (BitVec.ofNat 32 n.toNat) else none

def isPrivate4 (n : BitVec 32) : Bool :=
  privateNetworks4.any (·.has4 n.toNat) && privateExceptions4.all fun net => !net.has4 n.toNat

/-- `is_private`: a mapped address is judged as the address that it maps. -/
def isPrivate : IpAddress → Bool
  | v4 n => isPrivate4 n
  | v6 n =>
    match (v6 n).ipv4Mapped with
    | some mapped => isPrivate4 mapped
    | none => privateNetworks6.any (·.has6 n.toNat) && privateExceptions6.all fun net => !net.has6 n.toNat

def isLoopback : IpAddress → Bool
  | v4 n => Network.has4 ⟨0x7f000000, 8⟩ n.toNat
  | v6 n => n.toNat == 1

def isLinkLocal : IpAddress → Bool
  | v4 n => Network.has4 ⟨0xa9fe0000, 16⟩ n.toNat
  | v6 n => Network.has6 ⟨0xfe800000000000000000000000000000, 10⟩ n.toNat

def isMulticast : IpAddress → Bool
  | v4 n => Network.has4 ⟨0xe0000000, 4⟩ n.toNat
  | v6 n => Network.has6 ⟨0xff000000000000000000000000000000, 8⟩ n.toNat

def isReserved : IpAddress → Bool
  | v4 n => Network.has4 ⟨0xf0000000, 4⟩ n.toNat
  | v6 n => reservedNetworks6.any (·.has6 n.toNat)

def isUnspecified : IpAddress → Bool
  | v4 n => n.toNat == 0
  | v6 n => n.toNat == 0

def isGlobal : IpAddress → Bool
  | v4 n => !Network.has4 ⟨0x64400000, 10⟩ n.toNat && !(v4 n).isPrivate
  | v6 n => !(v6 n).isPrivate

/-- `_BLOCKED_NETWORKS`, of the version of the address. -/
def isBlocked : IpAddress → Bool
  | v4 n =>
    [⟨0xa9fe0000, 16⟩, ⟨0x7f000000, 8⟩, ⟨0xa000000, 8⟩, ⟨0xac100000, 12⟩, ⟨0xc0a80000, 16⟩,
      (⟨0x64400000, 10⟩ : Network)].any (·.has4 n.toNat)
  | v6 n =>
    [⟨0x1, 128⟩, ⟨0xfc000000000000000000000000000000, 7⟩,
      (⟨0xfe800000000000000000000000000000, 10⟩ : Network)].any (·.has6 n.toNat)

/-- The checks of `_address_is_safe` but for the one of the mapped address. -/
def isPublic (ip : IpAddress) : Bool :=
  !(ip.isLoopback || ip.isPrivate || ip.isLinkLocal) && !(ip.isMulticast || ip.isReserved || ip.isUnspecified) &&
    !ip.isBlocked && ip.isGlobal

/-- `_address_is_safe`. -/
def isSafe (ip : IpAddress) : Bool := ip.isPublic && ip.ipv4Mapped.all fun mapped => (v4 mapped).isPublic

/-- No safe address lies in a blocked network. -/
theorem isBlocked_of_isSafe {ip : IpAddress} (h : ip.isSafe = true) : ip.isBlocked = false := by
  simp only [isSafe, isPublic, Bool.and_eq_true, Bool.not_eq_true'] at h
  exact h.1.1.2

/-- No address of the sixth version stands for one of the fourth: `::/8` is reserved. -/
theorem ipv4Mapped_of_isSafe {ip : IpAddress} (h : ip.isSafe = true) : ip.ipv4Mapped = none := by
  cases ip with
  | v4 n => rfl
  | v6 n =>
    by_contra hmapped
    have hsmall : n.toNat / 2 ^ 32 = 0xffff := by
      by_contra hne
      exact hmapped (if_neg hne)
    have hzero : n.toNat / 2 ^ 120 = 0 := by omega
    have hreserved : (v6 n).isReserved = true := by
      refine List.any_eq_true.mpr ⟨⟨0x0, 8⟩, List.mem_cons_self, ?_⟩
      change (n.toNat / 2 ^ 120 == 0 / 2 ^ 120) = true
      rw [hzero]
      rfl
    simp [isSafe, isPublic, hreserved] at h

end IpAddress

/-! ## The environment -/

/-- What `urlparse` returns: a port out of range raises where it is read. -/
structure ParseResult where
  scheme : String
  username : Option String
  password : Option String
  hostname : Option String
  port : Except Unit (Option ℕ)

/-- What a lookup of a host comes to: the addresses in the order in which they are tried. -/
inductive Lookup
  | infos (addresses : List String)
  | gaierror
  | timeout
  /-- Another exception, as for a name that cannot be encoded. -/
  | error

namespace Lookup

def addresses : Lookup → List String
  | infos addresses => addresses
  | _ => []

end Lookup

/-- What the guard has from elsewhere. -/
structure Environment where
  /-- `urllib.parse.urlparse`, where it does not raise. -/
  urlparse : String → Option ParseResult
  /-- `ipaddress.ip_address`, where it does not raise. -/
  ipAddress : String → Option IpAddress
  /-- `lower`. -/
  lower : String → String
  /-- The URL that `requests` prepares, where it does not raise. -/
  prepareUrl : String → Option String
  /-- A connection to the address comes about. -/
  connects : String → Bool

inductive PushError
  /-- `UnsafeUrlError`. -/
  | unsafeUrl (message : String)
  | other
  deriving DecidableEq

/-! ## The guard -/

namespace Environment

variable (env : Environment)

/-- The check of one address in `resolve_safe_addresses`. -/
def checkAddress (hostname addr : String) : Except PushError String :=
  match env.ipAddress addr with
  | none => .error (.unsafeUrl ("Unparseable address for host: " ++ hostname))
  | some ip =>
    if ip.isSafe then .ok addr
    else .error (.unsafeUrl ("Host " ++ hostname ++ " resolves to a non-public address (" ++ addr ++ ")"))

/-- `resolve_safe_addresses`, with what the lookup comes to. -/
def resolveSafeAddresses (hostname : String) : Lookup → Except PushError (List String)
  | .timeout => .error (.unsafeUrl ("Resolving " ++ hostname ++ " timed out"))
  | .gaierror | .infos [] => .error (.unsafeUrl ("Cannot resolve host: " ++ hostname))
  | .error => .error .other
  | .infos addresses => addresses.mapM (env.checkAddress hostname)

def maxEndpointLength : ℕ := 2000

def isControl (c : Char) : Bool := c.toNat < 0x20 || c.toNat == 0x7f

/-- `parsed.port or 443`. -/
def portOr443 : Option ℕ → ℕ
  | none | some 0 => 443
  | some port => port

/-- `validate_push_endpoint`: the host, and its addresses at the lookup. -/
def validatePushEndpoint (endpoint : String) (lookup : Lookup) : Except PushError (List String) := do
  refuseIf endpoint.isEmpty (.unsafeUrl "Endpoint must be a non-empty string")
  refuseIf (endpoint.length > maxEndpointLength) (.unsafeUrl "Endpoint is too long")
  refuseIf (endpoint.toList.any isControl) (.unsafeUrl "Endpoint contains control characters")
  let parsed ← (env.urlparse endpoint).elim (.error (.unsafeUrl "Endpoint is not a valid URL")) .ok
  refuseIf (env.lower parsed.scheme != "https") (.unsafeUrl "Endpoint must use https")
  refuseIf (parsed.username.any (· != "") || parsed.password.any (· != ""))
    (.unsafeUrl "Endpoint must not contain credentials")
  let hostname ← (parsed.hostname.filter (· != "")).elim
    (.error (.unsafeUrl "Endpoint must contain a hostname")) .ok
  let port ← parsed.port.mapError fun _ => .unsafeUrl "Endpoint has an invalid port"
  refuseIf (portOr443 port != 443) (.unsafeUrl "Endpoint must use port 443")
  refuseIf ((env.ipAddress hostname).any fun literal => !literal.isSafe)
    (.unsafeUrl "Endpoint points at a non-public address")
  env.resolveSafeAddresses hostname lookup

/-! ## The session -/

/-- `_PinnedHostAdapter`. -/
structure PinnedHostAdapter where
  hostname : Option String
  allowed : List String

/-- The addresses that a connection is tried with, up to the first that accepts it. -/
def tried : List String → List String
  | [] => []
  | addr :: rest => addr :: if env.connects addr then [] else tried rest

/-- The HTTP library connects to a host by its name: it looks the host up itself, unless it is an address. -/
def connect (hostname : String) (lookup : Lookup) : List String :=
  if (env.ipAddress hostname).isSome then [hostname] else env.tried lookup.addresses

/-- `_PinnedHostAdapter.send`, with its own lookup and the one of the connection: the addresses that the
connection is tried with. -/
def PinnedHostAdapter.send (adapter : PinnedHostAdapter) (url : String) (own connection : Lookup) :
    Except PushError (List String) := do
  let parsed ← (env.urlparse url).elim (.error .other) .ok
  refuseIf (env.lower parsed.scheme != "https") (.unsafeUrl "Refusing non-https request")
  refuseIf (parsed.hostname != adapter.hostname) (.unsafeUrl "Refusing request to an unexpected host")
  let hostname := parsed.hostname.getD ""
  let _ ← parsed.port.mapError fun _ => .other
  let current ← env.resolveSafeAddresses hostname own
  refuseIf (!current.any (adapter.allowed.contains ·))
    (.unsafeUrl "Host now resolves to different addresses; refusing (possible rebinding)")
  .ok (env.connect hostname connection)

/-- A session of `requests`, with its settings. -/
structure Session where
  maxRedirects : ℕ
  allowRedirects : Bool
  adapter : PinnedHostAdapter

/-- `build_guarded_session`. -/
def buildGuardedSession (endpoint : String) (lookup : Lookup) : Except PushError Session := do
  let addresses ← env.validatePushEndpoint endpoint lookup
  let parsed ← (env.urlparse endpoint).elim (.error .other) .ok
  .ok ⟨0, false, ⟨parsed.hostname, addresses⟩⟩

/-- The URLs that a session requests in turn, where each response names the location of the next. -/
def Session.urls (session : Session) (url : String) (locations : List String) : List String :=
  url :: if session.allowRedirects then locations.take session.maxRedirects else []

/-- `session.post`: what becomes of the request for each of the URLs. The one at `i` has the lookups `2 * i + 1` and
`2 * i + 2`. -/
def Session.post (session : Session) (url : String) (locations : List String) (lookups : ℕ → Lookup) :
    List (Except PushError (List String)) :=
  (session.urls url locations).mapIdx fun i u =>
    match env.prepareUrl u with
    | none => .error .other
    | some prepared => session.adapter.send env prepared (lookups (2 * i + 1)) (lookups (2 * i + 2))

/-- `send_push_notification`: what becomes of its requests, where the session can be built. -/
def sendPushNotification (endpoint : String) (locations : List String) (lookups : ℕ → Lookup) :
    Except PushError (List (Except PushError (List String))) := do
  let session ← env.buildGuardedSession endpoint (lookups 0)
  .ok (session.post env endpoint locations lookups)

/-! ## What is dialled -/

/-- The guard has looked at the address, in the endpoint or in one of its lookups, and found it public. -/
def IsJudged (endpoint : String) (lookups : ℕ → Lookup) (addr : String) : Prop :=
  ((∃ parsed, env.urlparse endpoint = some parsed ∧ parsed.hostname = some addr) ∨
    addr ∈ (lookups 0).addresses ∨ addr ∈ (lookups 1).addresses) ∧
  ∃ ip, env.ipAddress addr = some ip ∧ ip.isSafe = true

/-- Every address that a connection is tried with, in any of the requests, is one that the guard has judged. -/
def DialsOnlyJudged (endpoint : String) (locations : List String) (lookups : ℕ → Lookup) : Prop :=
  ∀ requests, env.sendPushNotification endpoint locations lookups = .ok requests →
    ∀ dialled, .ok dialled ∈ requests → ∀ addr ∈ dialled, env.IsJudged endpoint lookups addr

/-- A lookup of nothing but safe addresses. -/
structure IsPublicLookup (lookup : Lookup) : Prop where
  nonempty : lookup.addresses ≠ []
  safe : ∀ addr ∈ lookup.addresses, ∃ ip, env.ipAddress addr = some ip ∧ ip.isSafe = true

/-- The endpoint is in the form that the guard asks for, with the host. -/
structure IsEndpoint (endpoint hostname : String) (parsed : ParseResult) : Prop where
  nonempty : endpoint.isEmpty = false
  length : endpoint.length ≤ maxEndpointLength
  control : endpoint.toList.any isControl = false
  parses : env.urlparse endpoint = some parsed
  scheme : env.lower parsed.scheme = "https"
  username : parsed.username.any (· != "") = false
  password : parsed.password.any (· != "") = false
  host : parsed.hostname = some hostname
  named : hostname ≠ ""
  port : ∃ port, parsed.port = .ok port ∧ portOr443 port = 443
  literal : ∀ ip, env.ipAddress hostname = some ip → ip.isSafe = true

/-- The URL that the HTTP library prepares names the same host. -/
structure IsPrepared (endpoint hostname : String) (prepared : String) (parsed : ParseResult) : Prop where
  prepares : env.prepareUrl endpoint = some prepared
  parses : env.urlparse prepared = some parsed
  scheme : env.lower parsed.scheme = "https"
  host : parsed.hostname = some hostname
  port : ∃ port, parsed.port = .ok port

/-- The guard lets the request through: both its lookups are public, and they have an address in common. -/
structure Passes (endpoint : String) (lookups : ℕ → Lookup) (hostname : String) : Prop where
  formed : ∃ parsed, env.IsEndpoint endpoint hostname parsed
  first : env.IsPublicLookup (lookups 0)
  prepared : ∃ prepared parsed, env.IsPrepared endpoint hostname prepared parsed
  second : env.IsPublicLookup (lookups 1)
  common : ∃ addr ∈ (lookups 1).addresses, addr ∈ (lookups 0).addresses

variable {env} {endpoint hostname : String} {lookup own connection : Lookup} {lookups : ℕ → Lookup}
  {locations dialled : List String}

theorem checkAddress_eq_ok {addr out : String} : env.checkAddress hostname addr = .ok out ↔
    (∃ ip, env.ipAddress addr = some ip ∧ ip.isSafe = true) ∧ out = addr := by
  rw [checkAddress]
  cases env.ipAddress addr with
  | none => simp
  | some ip =>
    cases hsafe : ip.isSafe with
    | false => simp [hsafe]
    | true => simpa [hsafe] using eq_comm

theorem mapM_checkAddress {addresses out : List String} :
    addresses.mapM (env.checkAddress hostname) = .ok out ↔
      (∀ addr ∈ addresses, ∃ ip, env.ipAddress addr = some ip ∧ ip.isSafe = true) ∧ out = addresses := by
  rw [mapM_eq_ok]
  induction addresses generalizing out with
  | nil => simp
  | cons addr rest ih =>
    constructor
    · rintro (_ | ⟨haddr, hrest⟩)
      obtain ⟨hsafe, rfl⟩ := checkAddress_eq_ok.mp haddr
      obtain ⟨hall, rfl⟩ := ih.mp hrest
      exact ⟨List.forall_mem_cons.mpr ⟨hsafe, hall⟩, rfl⟩
    · rintro ⟨hall, rfl⟩
      obtain ⟨hsafe, hrest⟩ := List.forall_mem_cons.mp hall
      exact .cons (checkAddress_eq_ok.mpr ⟨hsafe, rfl⟩) (ih.mpr ⟨hrest, rfl⟩)

theorem resolveSafeAddresses_eq_ok {out : List String} : env.resolveSafeAddresses hostname lookup = .ok out ↔
    env.IsPublicLookup lookup ∧ out = lookup.addresses := by
  have hempty : ∀ {l : Lookup}, l.addresses = [] → ¬ env.IsPublicLookup l := fun hl h => h.nonempty hl
  cases lookup with
  | infos addresses =>
    cases addresses with
    | nil => simpa [resolveSafeAddresses] using fun h => absurd h (hempty rfl)
    | cons addr rest =>
      rw [resolveSafeAddresses, mapM_checkAddress]
      · exact and_congr_left fun _ => ⟨fun h => ⟨List.cons_ne_nil _ _, h⟩, fun h => h.safe⟩
      · simp
  | gaierror => simpa [resolveSafeAddresses] using fun h => absurd h (hempty rfl)
  | timeout => simpa [resolveSafeAddresses] using fun h => absurd h (hempty rfl)
  | error => simpa [resolveSafeAddresses] using fun h => absurd h (hempty rfl)

theorem elim_eq_ok {α : Type} {o : Option α} {e : PushError} {a : α} :
    o.elim (.error e) .ok = (.ok a : Except PushError α) ↔ o = some a := by
  cases o <;> simp

theorem mapError_eq_ok {α : Type} {x : Except Unit α} {f : Unit → PushError} {a : α} :
    x.mapError f = .ok a ↔ x = .ok a := by
  cases x <;> simp [Except.mapError]

theorem validatePushEndpoint_eq_ok {out : List String} : env.validatePushEndpoint endpoint lookup = .ok out ↔
    (∃ hostname parsed, env.IsEndpoint endpoint hostname parsed) ∧ env.IsPublicLookup lookup ∧
      out = lookup.addresses := by
  simp only [validatePushEndpoint, bind_eq_ok, refuseIf_eq_ok, elim_eq_ok, mapError_eq_ok,
    resolveSafeAddresses_eq_ok]
  constructor
  · rintro ⟨_, hnonempty, _, hlength, _, hcontrol, parsed, hparses, _, hscheme, _, hcredentials, hostname, hhost,
      port, hport, _, h443, _, hliteral, hlookup⟩
    obtain ⟨hhost, hnamed⟩ := Option.filter_eq_some_iff.mp hhost
    obtain ⟨husername, hpassword⟩ := (Bool.or_eq_false_iff).mp hcredentials
    refine ⟨⟨hostname, parsed, hnonempty, by simpa using hlength, hcontrol, hparses, by simpa using hscheme,
      husername, hpassword, hhost, by simpa using hnamed, ⟨port, hport, by simpa using h443⟩, ?_⟩, hlookup⟩
    intro ip hip
    simpa [hip] using hliteral
  · rintro ⟨⟨hostname, parsed, h⟩, hlookup⟩
    obtain ⟨port, hport, h443⟩ := h.port
    refine ⟨(), h.nonempty, (), by simpa using h.length, (), h.control, parsed, h.parses, (), by simpa using h.scheme,
      (), Bool.or_eq_false_iff.mpr ⟨h.username, h.password⟩, hostname,
      Option.filter_eq_some_iff.mpr ⟨h.host, by simpa using h.named⟩, port, hport, (), by simpa using h443, (), ?_,
      hlookup⟩
    cases hip : env.ipAddress hostname with
    | none => rfl
    | some ip => simp [h.literal ip hip]

theorem buildGuardedSession_eq_ok {session : Session} : env.buildGuardedSession endpoint lookup = .ok session ↔
    ∃ hostname parsed, env.IsEndpoint endpoint hostname parsed ∧ env.IsPublicLookup lookup ∧
      session = ⟨0, false, ⟨some hostname, lookup.addresses⟩⟩ := by
  simp only [buildGuardedSession, bind_eq_ok, elim_eq_ok, validatePushEndpoint_eq_ok, Except.ok.injEq]
  constructor
  · rintro ⟨_, ⟨⟨hostname, parsed, h⟩, hlookup, rfl⟩, parsed', hparses, rfl⟩
    obtain rfl := Option.some.inj (h.parses.symm.trans hparses)
    exact ⟨hostname, parsed, h, hlookup, by rw [h.host]⟩
  · rintro ⟨hostname, parsed, h, hlookup, rfl⟩
    exact ⟨_, ⟨⟨hostname, parsed, h⟩, hlookup, rfl⟩, parsed, h.parses, by rw [h.host]⟩

/-- The adapter lets a request through where its own lookup is public and meets the addresses that the session
was built with. -/
theorem send_eq_ok {url : String} {allowed dialled : List String} :
    PinnedHostAdapter.send env ⟨some hostname, allowed⟩ url own connection = .ok dialled ↔
      (∃ parsed, env.urlparse url = some parsed ∧ env.lower parsed.scheme = "https" ∧
        parsed.hostname = some hostname ∧ ∃ port, parsed.port = .ok port) ∧ env.IsPublicLookup own ∧
      (∃ addr ∈ own.addresses, addr ∈ allowed) ∧ dialled = env.connect hostname connection := by
  simp only [PinnedHostAdapter.send, bind_eq_ok, elim_eq_ok, refuseIf_eq_ok, mapError_eq_ok,
    resolveSafeAddresses_eq_ok, Except.ok.injEq]
  constructor
  · rintro ⟨parsed, hparses, _, hscheme, _, hhost, port, hport, _, ⟨hown, rfl⟩, _, hcommon, rfl⟩
    have hhost : parsed.hostname = some hostname := by simpa using hhost
    refine ⟨⟨parsed, hparses, by simpa using hscheme, hhost, port, hport⟩, hown, by simpa using hcommon, ?_⟩
    rw [hhost, Option.getD_some]
  · rintro ⟨⟨parsed, hparses, hscheme, hhost, port, hport⟩, hown, hcommon, rfl⟩
    refine ⟨parsed, hparses, (), by simpa using hscheme, (), by simpa using hhost, port, hport, _, ⟨hown, rfl⟩, (),
      by simpa using hcommon, ?_⟩
    rw [hhost, Option.getD_some]

/-- The session requests the endpoint and nothing else, and its connection is the third lookup of the host. -/
theorem sendPushNotification_ok :
    (∃ requests, env.sendPushNotification endpoint locations lookups = .ok requests ∧ .ok dialled ∈ requests) ↔
      ∃ hostname, env.Passes endpoint lookups hostname ∧ dialled = env.connect hostname (lookups 2) := by
  have hpost : ∀ {hostname : String} {addresses : List String},
      (.ok dialled ∈ Session.post env ⟨0, false, ⟨some hostname, addresses⟩⟩ endpoint locations lookups ↔
        ∃ prepared, env.prepareUrl endpoint = some prepared ∧
          PinnedHostAdapter.send env ⟨some hostname, addresses⟩ prepared (lookups 1) (lookups 2) = .ok dialled) := by
    intro hostname addresses
    simp only [Session.post, Session.urls, Bool.false_eq_true, if_false, List.mapIdx_cons, List.mapIdx_nil,
      List.mem_singleton]
    cases env.prepareUrl endpoint with
    | none => simp
    | some prepared => simpa using eq_comm
  simp only [sendPushNotification, bind_eq_ok, buildGuardedSession_eq_ok, Except.ok.injEq]
  constructor
  · rintro ⟨_, ⟨_, ⟨hostname, parsed, hformed, hfirst, rfl⟩, rfl⟩, hmem⟩
    obtain ⟨prepared, hprepares, hsend⟩ := hpost.mp hmem
    obtain ⟨⟨parsed', hparses, hscheme, hhost, hport⟩, hsecond, hcommon, rfl⟩ := send_eq_ok.mp hsend
    exact ⟨hostname, ⟨⟨parsed, hformed⟩, hfirst, ⟨prepared, parsed', hprepares, hparses, hscheme, hhost, hport⟩,
      hsecond, hcommon⟩, rfl⟩
  · rintro ⟨hostname, h, rfl⟩
    obtain ⟨parsed, hformed⟩ := h.formed
    obtain ⟨prepared, parsed', hprepared⟩ := h.prepared
    refine ⟨_, ⟨_, ⟨hostname, parsed, hformed, h.first, rfl⟩, rfl⟩, hpost.mpr ⟨prepared, hprepared.prepares, ?_⟩⟩
    exact send_eq_ok.mpr ⟨⟨parsed', hprepared.parses, hprepared.scheme, hprepared.host, hprepared.port⟩, h.second,
      h.common, rfl⟩

/-- What the guard saw in its own lookups it has judged, where it let the request through. -/
theorem Passes.isJudged {addr : String} (h : env.Passes endpoint lookups hostname)
    (hseen : addr ∈ (lookups 0).addresses ∨ addr ∈ (lookups 1).addresses) : env.IsJudged endpoint lookups addr := by
  rcases hseen with hseen | hseen
  · exact ⟨.inr (.inl hseen), h.first.safe addr hseen⟩
  · exact ⟨.inr (.inr hseen), h.second.safe addr hseen⟩

/-- An endpoint that names an address is dialled at that address, which the guard has judged. -/
theorem Passes.isJudged_literal {ip : IpAddress} (h : env.Passes endpoint lookups hostname)
    (hip : env.ipAddress hostname = some ip) : env.IsJudged endpoint lookups hostname := by
  obtain ⟨parsed, hformed⟩ := h.formed
  exact ⟨.inl ⟨parsed, hformed.parses, hformed.host⟩, ip, hip, hformed.literal ip hip⟩

/-- A judged address lies in none of the blocked networks, and does not stand for an address of the fourth version. -/
theorem IsJudged.outside {addr : String} (h : env.IsJudged endpoint lookups addr) :
    ∃ ip, env.ipAddress addr = some ip ∧ ip.isBlocked = false ∧ ip.ipv4Mapped = none := by
  obtain ⟨-, ip, hip, hsafe⟩ := h
  exact ⟨ip, hip, IpAddress.isBlocked_of_isSafe hsafe, IpAddress.ipv4Mapped_of_isSafe hsafe⟩

end Environment

/-- The connection of a push is tried with judged addresses only, exactly where each request that the guard lets
through names an address, or is answered with addresses of the guard's lookups by the lookup of the connection. -/
theorem dials_only_judged (env : Environment) (endpoint : String) (locations : List String)
    (lookups : ℕ → Lookup) : env.DialsOnlyJudged endpoint locations lookups ↔
      ∀ hostname, env.Passes endpoint lookups hostname → env.ipAddress hostname = none →
        ∀ addr ∈ env.tried (lookups 2).addresses, addr ∈ (lookups 0).addresses ∨ addr ∈ (lookups 1).addresses := by
  constructor
  · intro h hostname hpasses hname addr haddr
    obtain ⟨requests, hrequests, hmem⟩ := (@Environment.sendPushNotification_ok env endpoint lookups locations
      (env.connect hostname (lookups 2))).mpr ⟨hostname, hpasses, rfl⟩
    have hdialled : addr ∈ env.connect hostname (lookups 2) := by
      rw [Environment.connect, hname]
      exact haddr
    obtain ⟨⟨parsed, hparses, hhost⟩ | hseen, ip, hip, -⟩ := h requests hrequests _ hmem addr hdialled
    · obtain ⟨parsed', hformed⟩ := hpasses.formed
      obtain rfl := Option.some.inj (hformed.parses.symm.trans hparses)
      obtain rfl := Option.some.inj (hformed.host.symm.trans hhost)
      rw [hname] at hip
      cases hip
    · exact hseen
  · intro h requests hrequests dialled hmem addr haddr
    obtain ⟨hostname, hpasses, rfl⟩ := Environment.sendPushNotification_ok.mp ⟨requests, hrequests, hmem⟩
    rw [Environment.connect] at haddr
    cases hip : env.ipAddress hostname with
    | some ip =>
      rw [hip, Option.isSome_some, if_pos rfl] at haddr
      obtain rfl := List.mem_singleton.mp haddr
      exact hpasses.isJudged_literal hip
    | none =>
      rw [hip, Option.isSome_none, if_neg Bool.false_ne_true] at haddr
      exact hpasses.isJudged (h hostname hpasses hip addr haddr)

/-! ## A name that is bound anew -/

section sample

def sampleEndpoint : String := "https://push.evil.example/abc"

def samplePublic : String := "93.184.216.34"

def sampleInternal : String := "127.0.0.1"

/-- Every URL is the endpoint, and two texts are addresses. -/
def sampleEnvironment : Environment where
  urlparse _ := some ⟨"https", none, none, some "push.evil.example", .ok none⟩
  ipAddress addr :=
    if addr = samplePublic then some (.v4 0x5db8d822)
    else if addr = sampleInternal then some (.v4 0x7f000001) else none
  lower text := text
  prepareUrl url := some url
  connects _ := true

/-- The guard is answered with the public address, and the connection with the loopback address. -/
def sampleLookups (n : ℕ) : Lookup := .infos [if n = 2 then sampleInternal else samplePublic]

theorem passes_sample : sampleEnvironment.Passes sampleEndpoint sampleLookups "push.evil.example" := by
  have hpublic : ∀ addr ∈ (Lookup.infos [samplePublic]).addresses,
      ∃ ip, sampleEnvironment.ipAddress addr = some ip ∧ ip.isSafe = true := by
    intro addr haddr
    obtain rfl := List.mem_singleton.mp haddr
    exact ⟨.v4 0x5db8d822, by decide +kernel, by decide +kernel⟩
  have hname : sampleEnvironment.ipAddress "push.evil.example" = none := by decide +kernel
  exact {
    formed := ⟨⟨"https", none, none, some "push.evil.example", .ok none⟩, {
      nonempty := by decide +kernel
      length := by decide +kernel
      control := by decide +kernel
      parses := rfl
      scheme := rfl
      username := rfl
      password := rfl
      host := rfl
      named := by decide
      port := ⟨none, rfl, rfl⟩
      literal := fun ip hip => by
        rw [hname] at hip
        cases hip }⟩
    first := ⟨List.cons_ne_nil _ _, hpublic⟩
    prepared := ⟨sampleEndpoint, _, ⟨rfl, rfl, rfl, rfl, none, rfl⟩⟩
    second := ⟨List.cons_ne_nil _ _, hpublic⟩
    common := ⟨samplePublic, List.mem_singleton_self _, List.mem_singleton_self _⟩ }

/-- The connection goes to the loopback address. -/
theorem not_dials_only_judged : ¬ ∀ (env : Environment) (endpoint : String) (locations : List String)
    (lookups : ℕ → Lookup), env.DialsOnlyJudged endpoint locations lookups := by
  intro h
  obtain ⟨requests, hrequests, hmem⟩ := (@Environment.sendPushNotification_ok sampleEnvironment sampleEndpoint
    sampleLookups [] (sampleEnvironment.connect "push.evil.example" (sampleLookups 2))).mpr
      ⟨_, passes_sample, rfl⟩
  have hdialled : sampleEnvironment.connect "push.evil.example" (sampleLookups 2) = [sampleInternal] := by
    decide +kernel
  rw [hdialled] at hmem
  obtain ⟨-, ip, hip, hsafe⟩ := h _ _ _ _ requests hrequests _ hmem sampleInternal (List.mem_singleton_self _)
  have hloopback : sampleEnvironment.ipAddress sampleInternal = some (.v4 0x7f000001) := by decide +kernel
  obtain rfl := Option.some.inj (hloopback.symm.trans hip)
  revert hsafe
  decide +kernel

end sample

end Kryptolog.Server.UrlGuard

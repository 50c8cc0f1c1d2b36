import Mathlib.Logic.Function.Basic
import OmegaPlane.Data.Checks
import OmegaPlane.Data.Pem
import OmegaPlane.Data.SpiffeId

/-!
# The registry of federated trust bundles

A control plane serves its own trust bundle and those of the peers it is configured
with.  Each peer is asked for its bundle in the background, first in the format of the
SPIFFE bundle endpoint and then in PEM.
-/

namespace OmegaPlane.Federation

/-! ## Peers -/

/-- How the endpoint of a peer is verified. -/
inductive Profile where
  | unset
  | httpsWeb
  | httpsSPIFFE
  | other (name : Bytes)
  deriving DecidableEq

structure PeerConfig where
  trustDomain : Bytes
  url : Bytes
  profile : Profile
  endpointSPIFFEID : Bytes
  endpointCAFile : Bytes
  endpointBundleFile : Bytes
  deriving DecidableEq

/-- A parsed URL. -/
structure Url where
  scheme : Bytes
  host : Bytes
  rawQuery : Bytes
  fragment : Bytes
  deriving DecidableEq

/-- What the registry uses of the world around it. -/
structure Outside where
  toLower : Bytes → Bytes
  parseURL : Bytes → Option Url
  /-- The number of certificates in a PEM file that can be read. -/
  certsFromPEM : Bytes → Option Nat
  /-- The number of authorities of a trust domain in a bundle file. -/
  loadBundle : Bytes → Bytes → Option Nat
  /-- The certificates and the refresh hint of a bundle document. -/
  readBundle : Bytes → Bytes → Option (List Bytes × Option Int)
  parsesCertificate : Bytes → Bool

/-- Trust domains are compared in lower case. -/
def canonical (out : Outside) (p : PeerConfig) : PeerConfig :=
  { p with trustDomain := out.toLower p.trustDomain }

inductive PeerError where
  | malformedEntry
  | unknownKey
  | missingNameOrURL
  | duplicate (trustDomain : Bytes)
  | badURL
  | badTrustDomain
  | noHost
  | queryOrFragment
  | insecure
  | insecurePins
  | unsupportedScheme (scheme : Bytes)
  | ignoredPins
  | missingPins
  | endpointCA
  | ignoredCA
  | endpointSPIFFEID
  | endpointBundle
  | unknownProfile
  deriving DecidableEq

/-- What the client of a peer verifies. -/
inductive Client where
  | plain
  | web (endpointCAFile : Option Bytes)
  | spiffe (endpoint : SpiffeId) (bundleFile : Bytes)
  deriving DecidableEq

def checkEndpointCA (out : Outside) (file : Bytes) : Except PeerError Client :=
  if file = [] then
    .ok (.web none)
  else
    match out.certsFromPEM file with
    | none => .error .endpointCA
    | some 0 => .error .endpointCA
    | some _ => .ok (.web (some file))

def checkEndpointBundle (out : Outside) (p : PeerConfig) : Except PeerError Client :=
  match SpiffeId.fromString p.endpointSPIFFEID with
  | none => .error .endpointSPIFFEID
  | some endpointID =>
    if p.endpointBundleFile = [] then
      .error .endpointBundle
    else
      match out.loadBundle endpointID.trustDomain p.endpointBundleFile with
      | none => .error .endpointBundle
      | some 0 => .error .endpointBundle
      | some _ => .ok (.spiffe endpointID p.endpointBundleFile)

def buildPeerClient (out : Outside) (p : PeerConfig) : Except PeerError Client :=
  match out.parseURL p.url with
  | none => .error .badURL
  | some u =>
    if SpiffeId.trustDomainFromString p.trustDomain = none then
      .error .badTrustDomain
    else if u.host = [] then
      .error .noHost
    else if u.rawQuery ≠ [] ∨ u.fragment ≠ [] then
      .error .queryOrFragment
    else if u.scheme = ascii "http" then
      if p.profile = .httpsSPIFFE ∨ p.endpointSPIFFEID ≠ [] ∨ p.endpointBundleFile ≠ [] ∨
          p.endpointCAFile ≠ [] then
        .error .insecurePins
      else
        .ok .plain
    else if u.scheme = ascii "https" then
      match p.profile with
      | .unset | .httpsWeb =>
        if p.endpointSPIFFEID ≠ [] ∨ p.endpointBundleFile ≠ [] then
          .error .ignoredPins
        else
          checkEndpointCA out p.endpointCAFile
      | .httpsSPIFFE =>
        if p.endpointCAFile ≠ [] then .error .ignoredCA else checkEndpointBundle out p
      | .other _ => .error .unknownProfile
    else
      .error (.unsupportedScheme u.scheme)

/-! ## The `--federate-with` flag -/

def profileOf (name : Bytes) : Profile :=
  if name = [] then .unset
  else if name = ascii "https_web" then .httpsWeb
  else if name = ascii "https_spiffe" then .httpsSPIFFE
  else .other name

/-- One `key=value` of an entry. -/
def setField (p : PeerConfig) (kv : Bytes) : Except PeerError PeerConfig :=
  match Text.cut (ascii "=") kv with
  | none => .error .malformedEntry
  | some (k, v) =>
    let k := Text.trimSpace k
    let v := Text.trimSpace v
    if k = ascii "name" then .ok { p with trustDomain := v }
    else if k = ascii "url" then .ok { p with url := v }
    else if k = ascii "profile" then .ok { p with profile := profileOf v }
    else if k = ascii "endpoint_spiffe_id" then .ok { p with endpointSPIFFEID := v }
    else if k = ascii "endpoint_ca" then .ok { p with endpointCAFile := v }
    else if k = ascii "endpoint_bundle" then .ok { p with endpointBundleFile := v }
    else .error .unknownKey

def checkScheme (allowInsecure : Bool) (p : PeerConfig) (u : Url) : Except PeerError Unit :=
  if u.scheme = ascii "https" then
    .ok ()
  else if u.scheme = ascii "http" then
    if allowInsecure = false then
      .error .insecure
    else if p.profile = .httpsSPIFFE ∨ p.endpointSPIFFEID ≠ [] ∨ p.endpointBundleFile ≠ [] ∨
        p.endpointCAFile ≠ [] then
      .error .insecurePins
    else
      .ok ()
  else
    .error (.unsupportedScheme u.scheme)

/-- The default profile, and the settings each profile takes. -/
def checkProfile (p : PeerConfig) : Except PeerError PeerConfig :=
  match p.profile with
  | .unset | .httpsWeb =>
    if p.endpointSPIFFEID ≠ [] ∨ p.endpointBundleFile ≠ [] then
      .error .ignoredPins
    else
      .ok { p with profile := .httpsWeb }
  | .httpsSPIFFE =>
    if p.endpointSPIFFEID = [] ∨ p.endpointBundleFile = [] then
      .error .missingPins
    else if p.endpointCAFile ≠ [] then
      .error .ignoredCA
    else
      .ok p
  | .other _ => .error .unknownProfile

/-- One entry, after the peers of the entries before it. -/
def parseFederatePeer (out : Outside) (allowInsecure : Bool) (peers : List PeerConfig)
    (entry : Bytes) : Except PeerError (List PeerConfig) := do
  let p ← (entry.splitOn 44).foldlM setField ⟨[], [], .unset, [], [], []⟩
  if p.trustDomain = [] ∨ p.url = [] then
    .error .missingNameOrURL
  else
    let p := canonical out p
    if p.trustDomain ∈ peers.map PeerConfig.trustDomain then
      .error (.duplicate p.trustDomain)
    else
      match out.parseURL p.url with
      | none => .error .badURL
      | some u =>
        if u.host = [] then
          .error .noHost
        else if u.rawQuery ≠ [] ∨ u.fragment ≠ [] then
          .error .queryOrFragment
        else do
          checkScheme allowInsecure p u
          let p ← checkProfile p
          return peers ++ [p]

def parseFederatePeers (out : Outside) (specs : List Bytes) (allowInsecure : Bool) :
    Except PeerError (List PeerConfig) :=
  specs.foldlM (parseFederatePeer out allowInsecure) []

/-! ## The registry -/

variable {σ : Type}

/-- The registry; `σ` names the live sources of the own bundle. -/
structure Registry (σ : Type) where
  ownTD : Bytes
  ownBundle : Bytes
  ownSource : Option σ
  peers : List PeerConfig
  peerClients : Bytes → Option Client
  configuredRefresh : Int
  peerBundles : Bytes → Option Bytes
  peerRefreshHints : Bytes → Option Int

/-- Add a peer to the ones before it and to the clients by trust domain. -/
def addPeer (out : Outside) (added : List PeerConfig × (Bytes → Option Client)) (p : PeerConfig) :
    Except PeerError (List PeerConfig × (Bytes → Option Client)) :=
  let p := canonical out p
  if (added.2 p.trustDomain).isSome then
    .error (.duplicate p.trustDomain)
  else do
    let client ← buildPeerClient out p
    return (added.1 ++ [p], Function.update added.2 p.trustDomain (some client))

def newRegistry (out : Outside) (ownTD ownBundle : Bytes) (peers : List PeerConfig)
    (refresh : Int) : Except PeerError (Registry σ) := do
  let (canon, clients) ← peers.foldlM (addPeer out) ([], fun _ => none)
  return {
    ownTD, ownBundle
    ownSource := none
    peers := canon
    peerClients := clients
    configuredRefresh := if refresh ≤ 0 then 30000000000 else refresh
    peerBundles := fun _ => none
    peerRefreshHints := fun _ => none }

/-! ## Fetching a bundle -/

/-- An answer of a peer; none is a request that failed. -/
structure Answer where
  status : Nat
  body : Bytes

inductive FetchError where
  | trustDomain
  | noClient
  | failed
  | tdfUnavailable
  | status (status : Nat)
  | parseTDF
  | noAnchors
  | notPEM
  | parseAnchor
  | noCertificate
  deriving DecidableEq

/-- The size that is read of an answer. -/
def maxBody : Nat := 1048576

def certificatePEM (raw : Bytes) : Bytes :=
  Pem.encodeToMemory ⟨ascii "CERTIFICATE", raw⟩

namespace Registry

def clientFor (out : Outside) (r : Registry σ) (trustDomain : Bytes) : Option Client :=
  r.peerClients (out.toLower trustDomain)

def fetchTDF (out : Outside) (r : Registry σ) (peer : PeerConfig) (answer : Option Answer) :
    Except FetchError (Bytes × Int) :=
  match SpiffeId.trustDomainFromString peer.trustDomain with
  | none => .error .trustDomain
  | some td =>
    match r.clientFor out peer.trustDomain, answer with
    | none, _ => .error .noClient
    | some _, none => .error .failed
    | some _, some answer =>
      if answer.status = 404 then
        .error .tdfUnavailable
      else if answer.status ≠ 200 then
        .error (.status answer.status)
      else
        match out.readBundle td (answer.body.take maxBody) with
        | none => .error .parseTDF
        | some (anchors, hint) =>
          if anchors = [] then
            .error .noAnchors
          else
            .ok (anchors.flatMap certificatePEM, hint.getD 0)

def fetchPEM (out : Outside) (r : Registry σ) (peer : PeerConfig) (answer : Option Answer) :
    Except FetchError Bytes :=
  match r.clientFor out peer.trustDomain, answer with
  | none, _ => .error .noClient
  | some _, none => .error .failed
  | some _, some answer =>
    let body := answer.body.take maxBody
    let certs := (Pem.blocks body).filter fun block => block.type = ascii "CERTIFICATE"
    if answer.status ≠ 200 then
      .error (.status answer.status)
    else if (Text.cut (ascii "BEGIN CERTIFICATE") body).isNone then
      .error .notPEM
    else if certs.any fun block => !out.parsesCertificate block.bytes then
      .error .parseAnchor
    else if certs = [] then
      .error .noCertificate
    else
      .ok body

/-- The answers of the two endpoints give the bundle and the refresh hint. -/
def fetchPeer (out : Outside) (r : Registry σ) (peer : PeerConfig) (tdf pem : Option Answer) :
    Except FetchError (Bytes × Int) :=
  match r.fetchTDF out peer tdf with
  | .ok fetched => .ok fetched
  | .error .tdfUnavailable => do
    let body ← r.fetchPEM out peer pem
    return (body, 0)
  | .error err => .error err

def refreshOne (out : Outside) (r : Registry σ) (p : PeerConfig) (tdf pem : Option Answer) :
    Registry σ :=
  match r.fetchPeer out p tdf pem with
  | .error _ => r
  | .ok (body, hint) =>
    { r with
      peerBundles := Function.update r.peerBundles p.trustDomain (some body)
      peerRefreshHints := Function.update r.peerRefreshHints p.trustDomain
        (if 0 < hint then some hint else none) }

/-! ## The own bundle -/

def setOwnBundle (r : Registry σ) (bundle : Bytes) : Registry σ :=
  { r with ownBundle := bundle }

def setOwnBundleSource (r : Registry σ) (src : Option σ) : Registry σ :=
  { r with ownSource := src }

/-- `Bundles`.  The source is taken from the registry `first`, asked without the lock,
and the rest is read from the registry `second` that the call meets after that; `live` is
what the sources answer in between. -/
def bundles (live : σ → Bytes) (first second : Registry σ) : Bytes → Option Bytes :=
  let own := match first.ownSource with
    | some src => live src
    | none => []
  let own := if own = [] then second.ownBundle else own
  fun td =>
    -- Peers are written over the own bundle.
    match second.peerBundles td with
    | some pem => some pem
    | none => if td = second.ownTD then some own else none

/-! ## The interval of a peer -/

end Registry

end OmegaPlane.Federation

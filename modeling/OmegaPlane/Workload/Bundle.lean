import Mathlib.Logic.Function.Basic
import Mathlib.Logic.Relation
import OmegaPlane.Data.Pem

/-!
# The trust bundle a workload gets

The control plane serves its trust bundle as concatenated PEM blocks: the CAs
of the disk authority, or what an external issuer supplies.  The agent decodes
it in three places, for the SVID it caches, for the federated bundles and for
the single bundle of an older control plane, and reads one block in each.  So a
workload gets the whole bundle exactly when it holds one certificate.
-/

namespace OmegaPlane.Workload

/-- A certificate by its DER encoding, which is not empty. -/
structure Certificate where
  raw : Bytes
  encoded : raw ≠ []
  deriving DecidableEq

/-! ## The control plane -/

def certificateBlock (cert : Certificate) : Pem.Block :=
  ⟨ascii "CERTIFICATE", cert.raw⟩

/-- One generation of the disk authority's certificates. -/
structure CAState where
  cert : Certificate
  trusted : List Certificate
  bundlePEM : Bytes

/-- Add a CA, if it exists, to the trusted ones and to the bundle. -/
def CAState.add (st : CAState) (c : Option Certificate) : CAState :=
  match c with
  | none => st
  | some cert =>
    { st with
      trusted := st.trusted ++ [cert]
      bundlePEM := st.bundlePEM ++ Pem.encodeToMemory (certificateBlock cert) }

/-- The active CA first, then those of the next and the previous one that
exist. -/
def newCAState (active : Certificate) (extra : List (Option Certificate)) : CAState :=
  extra.foldl CAState.add ⟨active, [active], Pem.encodeToMemory (certificateBlock active)⟩

/-- The text is a trust bundle of these certificates: they are its PEM blocks,
in order. -/
def Serves (bundlePEM : Bytes) (certs : List Certificate) : Prop :=
  Pem.blocks bundlePEM = certs.map certificateBlock

/-- The DER of all certificates, one after the other. -/
def concatenated (certs : List Certificate) : Bytes :=
  certs.flatMap Certificate.raw

/-- A bundle that is encoded block by block serves its certificates. -/
theorem serves_flatMap (certs : List Certificate) :
    Serves (certs.flatMap fun cert => Pem.encodeToMemory (certificateBlock cert)) certs := by
  have wellFormed : ∀ block ∈ certs.map certificateBlock, 10 ∉ block.type ∧ block.bytes ≠ [] := by
    intro block member
    obtain ⟨cert, -, rfl⟩ := List.mem_map.mp member
    have single : (10 : UInt8) ∉ ascii "CERTIFICATE" := by decide
    exact ⟨single, cert.encoded⟩
  have decoded := Pem.blocks_encodeToMemory wellFormed
  rwa [List.flatMap_map] at decoded

/-- Adding CAs keeps the text and the list in step. -/
theorem foldl_add {st : CAState} (extra : List (Option Certificate))
    (inStep : st.bundlePEM =
      st.trusted.flatMap fun cert => Pem.encodeToMemory (certificateBlock cert)) :
    (extra.foldl CAState.add st).trusted = st.trusted ++ extra.filterMap id ∧
      (extra.foldl CAState.add st).bundlePEM = (extra.foldl CAState.add st).trusted.flatMap
        fun cert => Pem.encodeToMemory (certificateBlock cert) := by
  induction extra generalizing st with
  | nil => exact ⟨by simp, inStep⟩
  | cons c extra ih =>
  cases c with
  | none => simpa [CAState.add] using ih inStep
  | some cert =>
  have added : (st.add (some cert)).bundlePEM = (st.add (some cert)).trusted.flatMap
      fun cert => Pem.encodeToMemory (certificateBlock cert) := by
    simp [CAState.add, inStep]
  obtain ⟨trusted, bundle⟩ := ih added
  exact ⟨by rw [List.foldl_cons, trusted]; simp [CAState.add], bundle⟩

/-- The bundle of the disk authority serves the CAs it trusts. -/
theorem serves_newCAState (active : Certificate) (extra : List (Option Certificate)) :
    Serves (newCAState active extra).bundlePEM (active :: extra.filterMap id) := by
  obtain ⟨trusted, bundle⟩ := @foldl_add
    ⟨active, [active], Pem.encodeToMemory (certificateBlock active)⟩ extra (by simp)
  rw [newCAState, bundle, trusted]
  exact serves_flatMap _

/-! ## The agent -/

/-- The status errors of the agent. -/
inductive Status where
  | internal (message : String)
  | noPEMBlock (trustDomain : Bytes)
  | unavailable (message : String)
  | noFederation
  deriving DecidableEq

/-- What a request to the control plane comes back with. -/
inductive Response (α : Type) where
  | unreachable
  | refused (status : Nat)
  | ok (body : α)

/-- The answer to a request for an SVID, both fields in PEM. -/
structure IssueSVIDResponse where
  svid : Bytes
  bundle : Bytes

/-- A cached SVID. -/
structure SvidEntry where
  spiffeID : Bytes
  svidDER : Bytes
  bundleDER : Bytes
  keyDER : Bytes
  notBefore : Int
  notAfter : Int

/-- Half of the validity has passed. -/
def SvidEntry.refreshAt (entry : SvidEntry) : Int :=
  entry.notBefore + (entry.notAfter - entry.notBefore).tdiv 2

def SvidEntry.stale (entry : SvidEntry) (now : Int) : Bool :=
  !decide (now < entry.refreshAt)

/-- The SVID cache by attested identity. -/
structure Agent where
  cache : Bytes → Option SvidEntry

/-- One call for an attested workload: the clock, what the control plane would
answer and the DER of the fresh key. -/
structure SvidCall where
  cacheKey : Bytes
  spiffeID : Bytes
  now : Int
  answer : Response IssueSVIDResponse
  keyDER : Option Bytes

def pemToDER (svidPEM bundlePEM : Bytes) : Except Status (Bytes × Bytes) :=
  match Pem.decode svidPEM with
  | none => .error (.internal "decode pem: svid pem")
  | some (sb, _) =>
    match Pem.decode bundlePEM with
    | none => .error (.internal "decode pem: bundle pem")
    | some (bb, _) => .ok (sb.bytes, bb.bytes)

def requestSVID : Response IssueSVIDResponse → Except Status IssueSVIDResponse
  | .unreachable => .error (.unavailable "control plane")
  | .refused _ => .error (.internal "control plane")
  | .ok body => .ok body

section Agent

-- the validity of a certificate, if the DER parses
variable (parseCertificate : Bytes → Option (Int × Int))

/-- A fresh entry from the answer of the control plane. -/
def issueEntry (call : SvidCall) : Except Status SvidEntry := do
  let resp ← requestSVID call.answer
  let (svidDER, bundleDER) ← pemToDER resp.svid resp.bundle
  match call.keyDER with
  | none => .error (.internal "marshal key")
  | some keyDER =>
    match parseCertificate svidDER with
    | none => .error (.internal "parse svid")
    | some (notBefore, notAfter) =>
      .ok ⟨call.spiffeID, svidDER, bundleDER, keyDER, notBefore, notAfter⟩

/-- The cached entry of the workload unless it is missing, for another identity
or past its refresh time, and then a fresh one. -/
def getOrRefresh (agent : Agent) (call : SvidCall) : Agent × Except Status SvidEntry :=
  match (agent.cache call.cacheKey).filter fun entry =>
      entry.spiffeID = call.spiffeID ∧ !entry.stale call.now with
  | some entry => (agent, .ok entry)
  | none =>
    match issueEntry parseCertificate call with
    | .error err => (agent, .error err)
    | .ok entry => (⟨Function.update agent.cache call.cacheKey (some entry)⟩, .ok entry)

/-- What a workload is sent with its SVID. -/
structure X509SVID where
  spiffeID : Bytes
  x509Svid : Bytes
  x509SvidKey : Bytes
  bundle : Bytes

/-- One message of the `FetchX509SVID` stream. -/
def fetchX509SVID (agent : Agent) (call : SvidCall) : Agent × Except Status X509SVID :=
  match getOrRefresh parseCertificate agent call with
  | (agent', .error err) => (agent', .error err)
  | (agent', .ok entry) =>
    (agent', .ok ⟨entry.spiffeID, entry.svidDER, entry.keyDER, entry.bundleDER⟩)

/-- The first block of every trust domain's bundle. -/
def firstBlocks : List (Bytes × Bytes) → Except Status (List (Bytes × Bytes))
  | [] => .ok []
  | (td, pem) :: rest =>
    match Pem.decode pem with
    | none => .error (.noPEMBlock td)
    | some (block, _) => do
      let others ← firstBlocks rest
      .ok ((td, block.bytes) :: others)

/-- The bundles by trust domain, as DER. -/
def fetchFederationBundles : Response (List (Bytes × Bytes)) →
    Except Status (List (Bytes × Bytes))
  | .unreachable => .error (.unavailable "control plane")
  | .refused status =>
    if status = 404 then .error .noFederation else .error (.internal "federation fetch")
  | .ok domains => do
    let bundles ← firstBlocks domains
    if bundles = [] then .error .noFederation else .ok bundles

/-- The bundle of a control plane without federation, under a fixed name. -/
def fetchBundle : Response Bytes → Except Status (Bytes × Bytes)
  | .unreachable => .error (.unavailable "control plane")
  | .refused _ => .error (.internal "bundle fetch")
  | .ok body =>
    match Pem.decode body with
    | none => .error (.internal "invalid bundle pem")
    | some (block, _) =>
      match parseCertificate block.bytes with
      | none => .error (.internal "parse bundle")
      | some _ => .ok (block.bytes, ascii "omega.local")

/-- The message of the `FetchX509Bundles` stream, by trust domain. -/
def fetchX509Bundles (federation : Response (List (Bytes × Bytes))) (single : Response Bytes) :
    Except Status (List (Bytes × Bytes)) :=
  match fetchFederationBundles federation with
  | .ok bundles => .ok bundles
  | .error _ => do
    let (bundleDER, trustDomain) ← fetchBundle parseCertificate single
    .ok [(trustDomain, bundleDER)]

end Agent

/-! ## What the agent reads of a bundle -/

/-- One decoding of a served bundle gives its first certificate. -/
theorem decode_of_serves {bundlePEM : Bytes} {first : Certificate} {rest : List Certificate}
    (serves : Serves bundlePEM (first :: rest)) :
    ∃ text, Pem.decode bundlePEM = some (certificateBlock first, text) := by
  have head := Pem.head_blocks bundlePEM
  rw [serves, List.map_cons, List.head?_cons] at head
  obtain ⟨⟨block, text⟩, decoded, rfl⟩ := Option.map_eq_some_iff.mp head.symm
  exact ⟨text, decoded⟩

/-- The first certificate is the whole bundle exactly when it is the only
one. -/
theorem raw_eq_concatenated_iff (first : Certificate) (rest : List Certificate) :
    first.raw = concatenated (first :: rest) ↔ (first :: rest).length = 1 := by
  cases rest with
  | nil => simp [concatenated]
  | cons second => simp [concatenated, second.encoded]

/-- Whatever the control plane answers, its bundle is the given text. -/
def SvidCall.Carries (call : SvidCall) (bundlePEM : Bytes) : Prop :=
  ∀ body, call.answer = .ok body → body.bundle = bundlePEM

/-- One call to an agent while the control plane serves the bundle. -/
def AgentStep (parseCertificate : Bytes → Option (Int × Int)) (bundlePEM : Bytes)
    (agent agent' : Agent) : Prop :=
  ∃ call : SvidCall, call.Carries bundlePEM ∧ agent' = (fetchX509SVID parseCertificate agent call).1

/-- Every cached bundle is the first block of the bundle served. -/
def CachesFirst (bundlePEM : Bytes) (agent : Agent) : Prop :=
  ∀ key entry, agent.cache key = some entry →
    (Pem.decode bundlePEM).map (fun found => found.1.bytes) = some entry.bundleDER

section Agent

variable {parseCertificate : Bytes → Option (Int × Int)} {bundlePEM : Bytes} {call : SvidCall}
  {agent : Agent} {domains : List (Bytes × Bytes)}

theorem pemToDER_eq_ok {svidPEM svidDER bundleDER : Bytes}
    (converted : pemToDER svidPEM bundlePEM = .ok (svidDER, bundleDER)) :
    (Pem.decode bundlePEM).map (fun found => found.1.bytes) = some bundleDER := by
  unfold pemToDER at converted
  split at converted
  · contradiction
  split at converted
  · contradiction
  rename_i decoded
  cases converted
  rw [decoded]
  rfl

theorem issueEntry_bundle {entry : SvidEntry} (carries : call.Carries bundlePEM)
    (issued : issueEntry parseCertificate call = .ok entry) :
    (Pem.decode bundlePEM).map (fun found => found.1.bytes) = some entry.bundleDER := by
  cases answer : call.answer with
  | unreachable | refused => simp [issueEntry, requestSVID, answer, bind, Except.bind] at issued
  | ok body =>
  rw [← carries body answer]
  simp only [issueEntry, requestSVID, answer, bind, Except.bind] at issued
  split at issued
  · contradiction
  rename_i converted
  split at issued
  · contradiction
  split at issued
  · contradiction
  · cases issued
    exact pemToDER_eq_ok converted

/-- What a call returns and leaves in the cache comes from the served bundle. -/
theorem getOrRefresh_spec (caches : CachesFirst bundlePEM agent)
    (carries : call.Carries bundlePEM) :
    CachesFirst bundlePEM (getOrRefresh parseCertificate agent call).1 ∧
      ∀ entry, (getOrRefresh parseCertificate agent call).2 = .ok entry →
        (Pem.decode bundlePEM).map (fun found => found.1.bytes) = some entry.bundleDER := by
  unfold getOrRefresh
  split
  · rename_i entry hit
    refine ⟨caches, ?_⟩
    rintro _ ⟨⟩
    exact caches call.cacheKey entry (Option.filter_eq_some_iff.mp hit).1
  · split
    · exact ⟨caches, by rintro _ ⟨⟩⟩
    · rename_i entry issued
      have fresh := issueEntry_bundle carries issued
      refine ⟨?_, by rintro _ ⟨⟩; exact fresh⟩
      intro key cached found
      by_cases same : key = call.cacheKey
      · subst same
        obtain rfl : entry = cached := by simpa using found
        exact fresh
      · exact caches key cached (by simpa [same] using found)

theorem fetchX509SVID_spec (caches : CachesFirst bundlePEM agent)
    (carries : call.Carries bundlePEM) :
    CachesFirst bundlePEM (fetchX509SVID parseCertificate agent call).1 ∧
      ∀ svid, (fetchX509SVID parseCertificate agent call).2 = .ok svid →
        (Pem.decode bundlePEM).map (fun found => found.1.bytes) = some svid.bundle := by
  obtain ⟨kept, returned⟩ := @getOrRefresh_spec parseCertificate _ _ _ caches carries
  unfold fetchX509SVID
  split
  · rename_i agent' err result
    rw [result] at kept
    exact ⟨kept, by rintro _ ⟨⟩⟩
  · rename_i agent' entry result
    rw [result] at kept returned
    refine ⟨kept, ?_⟩
    rintro _ ⟨⟩
    exact returned entry rfl

/-- The cache invariant along every run of calls. -/
theorem cachesFirst_of_run
    (run : Relation.ReflTransGen (AgentStep parseCertificate bundlePEM) ⟨fun _ => none⟩ agent) :
    CachesFirst bundlePEM agent := by
  induction run with
  | refl => rintro _ _ ⟨⟩
  | tail _ step ih =>
    obtain ⟨call, carries, rfl⟩ := step
    exact (fetchX509SVID_spec ih carries).1

/-- A call succeeds when the SVID it gets decodes and parses. -/
theorem fetchX509SVID_isOk {body : IssueSVIDResponse} {block bundle : Pem.Block}
    {svidRest bundleRest keyDER : Bytes} {validity : Int × Int} (agent : Agent)
    (answer : call.answer = .ok body) (svid : Pem.decode body.svid = some (block, svidRest))
    (decoded : Pem.decode body.bundle = some (bundle, bundleRest)) (key : call.keyDER = some keyDER)
    (parses : parseCertificate block.bytes = some validity) :
    ∃ sent, (fetchX509SVID parseCertificate agent call).2 = .ok sent := by
  have issued : ∃ entry, issueEntry parseCertificate call = .ok entry := by
    simp [issueEntry, requestSVID, pemToDER, answer, svid, decoded, key, parses, bind, Except.bind]
  obtain ⟨entry, issued⟩ := issued
  unfold fetchX509SVID getOrRefresh
  rw [issued]
  split
  · rename_i err result
    split at result <;> cases result
  · exact ⟨_, rfl⟩

/-- Every trust domain gets the first block of its bundle. -/
theorem lookup_firstBlocks {bundles : List (Bytes × Bytes)} {td pem : Bytes}
    (read : firstBlocks domains = .ok bundles) (served : domains.lookup td = some pem) :
    bundles.lookup td = (Pem.decode pem).map fun found => found.1.bytes := by
  induction domains generalizing bundles with
  | nil => contradiction
  | cons domain rest ih =>
  obtain ⟨name, text⟩ := domain
  simp only [firstBlocks] at read
  split at read
  · contradiction
  rename_i block after decoded
  cases others : firstBlocks rest with
  | error => simp [others, bind, Except.bind] at read
  | ok =>
  simp only [others, bind, Except.bind, Except.ok.injEq] at read
  subst read
  by_cases same : td = name
  · subst same
    obtain rfl : text = pem := by simpa using served
    simp [decoded]
  · have differs : (td == name) = false := by simpa using same
    rw [List.lookup_cons, differs] at served ⊢
    exact ih others served

theorem firstBlocks_isOk (readable : ∀ domain ∈ domains, (Pem.decode domain.2).isSome = true) :
    ∃ bundles, firstBlocks domains = .ok bundles := by
  induction domains with
  | nil => exact ⟨[], rfl⟩
  | cons domain rest ih =>
  obtain ⟨bundles, read⟩ := ih fun other member => readable other (by simp [member])
  obtain ⟨⟨block, after⟩, decoded⟩ := Option.isSome_iff_exists.mp (readable domain (by simp))
  exact ⟨(domain.1, block.bytes) :: bundles, by
    simp [firstBlocks, decoded, read, bind, Except.bind]⟩

end Agent

/-! ## When a workload gets the whole bundle -/

/-- A workload gets the whole bundle exactly when it holds one certificate: with
its SVID, after any calls to the agent; with the federated bundles, under the
name of the trust domain; and with the single bundle of a control plane without
federation.  The calls succeed when what they have to decode and parse can be. -/
theorem fetched_bundle_whole_iff (parseCertificate : Bytes → Option (Int × Int))
    {bundlePEM : Bytes} {certs : List Certificate} (serves : Serves bundlePEM certs)
    (nonempty : certs ≠ []) :
    (∀ (agent : Agent) (call : SvidCall),
      Relation.ReflTransGen (AgentStep parseCertificate bundlePEM) ⟨fun _ => none⟩ agent →
      call.Carries bundlePEM →
      (∀ svid, (fetchX509SVID parseCertificate agent call).2 = .ok svid →
        (svid.bundle = concatenated certs ↔ certs.length = 1)) ∧
      (∀ body block svidRest keyDER validity, call.answer = .ok body →
        Pem.decode body.svid = some (block, svidRest) → call.keyDER = some keyDER →
        parseCertificate block.bytes = some validity →
        ∃ svid, (fetchX509SVID parseCertificate agent call).2 = .ok svid)) ∧
    (∀ (domains : List (Bytes × Bytes)) (td : Bytes) (single : Response Bytes),
      domains.lookup td = some bundlePEM →
      (∀ domain ∈ domains, (Pem.decode domain.2).isSome = true) →
      ∃ bundles der, fetchX509Bundles parseCertificate (.ok domains) single = .ok bundles ∧
        bundles.lookup td = some der ∧ (der = concatenated certs ↔ certs.length = 1)) ∧
    (∀ (federation : Response (List (Bytes × Bytes))) (err : Status) (validity : Int × Int),
      fetchFederationBundles federation = .error err →
      parseCertificate (certs.head nonempty).raw = some validity →
      ∃ der, fetchX509Bundles parseCertificate federation (.ok bundlePEM) =
          .ok [(ascii "omega.local", der)] ∧
        (der = concatenated certs ↔ certs.length = 1)) := by
  cases certs with
  | nil => exact absurd rfl nonempty
  | cons first rest =>
  obtain ⟨text, decoded⟩ := decode_of_serves serves
  have wholeIff := raw_eq_concatenated_iff first rest
  refine ⟨?_, ?_, ?_⟩
  · intro agent call run carries
    refine ⟨?_, ?_⟩
    · intro svid sent
      have bundle := (fetchX509SVID_spec (cachesFirst_of_run run) carries).2 svid sent
      rw [decoded] at bundle
      rw [← Option.some.inj bundle]
      exact wholeIff
    · intro body block svidRest keyDER validity answer svid key parses
      rw [← carries body answer] at decoded
      exact fetchX509SVID_isOk agent answer svid decoded key parses
  · intro domains td single served readable
    obtain ⟨bundles, read⟩ := firstBlocks_isOk readable
    have found := lookup_firstBlocks read served
    rw [decoded] at found
    have some : bundles ≠ [] := by
      rintro rfl
      contradiction
    refine ⟨bundles, first.raw, ?_, found, wholeIff⟩
    simp [fetchX509Bundles, fetchFederationBundles, read, some, bind, Except.bind]
  · intro federation err validity failed parses
    refine ⟨first.raw, ?_, wholeIff⟩
    have parsesFirst : parseCertificate (certificateBlock first).bytes = some validity := parses
    simp only [fetchX509Bundles, failed, fetchBundle, decoded, parsesFirst, bind, Except.bind]
    rfl

/-- Stand-ins for the DER of an active and a prepared CA. -/
def activeCA : Certificate :=
  ⟨[0x30, 0x03, 0x02, 0x01, 0x01], by simp⟩

def nextCA : Certificate :=
  ⟨[0x30, 0x03, 0x02, 0x01, 0x02], by simp⟩

theorem fetched_bundle_whole_iff_activeCA :
    ∃ bundles der,
      fetchX509Bundles (fun _ => none)
        (.ok [(ascii "omega.local", (newCAState activeCA [none, none]).bundlePEM)])
        .unreachable = .ok bundles ∧
      bundles.lookup (ascii "omega.local") = some der ∧
      (der = concatenated [activeCA] ↔ [activeCA].length = 1) := by
  have serves := serves_newCAState activeCA [none, none]
  exact (fetched_bundle_whole_iff (fun _ => none) serves (by simp)).2.1 _ _ _ rfl (by decide)

/-- During a rotation the agent hands out the active CA alone, with the SVID and
with the federated bundles. -/
theorem rotation_bundle_truncated :
    (pemToDER (Pem.encodeToMemory (certificateBlock activeCA))
      (newCAState activeCA [some nextCA, none]).bundlePEM).map Prod.snd = .ok activeCA.raw ∧
    fetchX509Bundles (fun _ => none)
      (.ok [(ascii "omega.local", (newCAState activeCA [some nextCA, none]).bundlePEM)])
      .unreachable = .ok [(ascii "omega.local", activeCA.raw)] ∧
    activeCA.raw ≠ concatenated (newCAState activeCA [some nextCA, none]).trusted := by
  refine ⟨rfl, rfl, by decide⟩

end OmegaPlane.Workload

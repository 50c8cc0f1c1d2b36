import OmegaPlane.Federation.Registry

/-!
# The own bundle in the merged map

The registry writes the bundles of peers over its own.  So the own trust domain is
served with the own bundle, whatever peers answer, exactly when no peer is configured
under the name of the own trust domain; nothing checks that.
-/

namespace OmegaPlane.Federation

variable {σ : Type} {out : Outside}

/-! ## Runs -/

/-- What happens to a registry.  A peer is refreshed by its place in the list. -/
inductive Event (σ : Type) where
  | refresh (peer : Nat) (tdf pem : Option Answer)
  | setOwnBundle (bundle : Bytes)
  | setOwnBundleSource (src : Option σ)

namespace Registry

def step (out : Outside) (r : Registry σ) : Event σ → Registry σ
  | .refresh peer tdf pem =>
    match r.peers[peer]? with
    | some p => r.refreshOne out p tdf pem
    | none => r
  | .setOwnBundle bundle => r.setOwnBundle bundle
  | .setOwnBundleSource src => r.setOwnBundleSource src

def run (out : Outside) (r : Registry σ) (events : List (Event σ)) : Registry σ :=
  events.foldl (step out) r

end Registry

/-! ## What the own trust domain should be served with -/

/-- The own bundle that was set last. -/
def lastBundle (start : Bytes) : List (Event σ) → Bytes
  | [] => start
  | .setOwnBundle bundle :: rest => lastBundle bundle rest
  | _ :: rest => lastBundle start rest

/-- The source that was set last. -/
def lastSource (start : Option σ) : List (Event σ) → Option σ
  | [] => start
  | .setOwnBundleSource src :: rest => lastSource src rest
  | _ :: rest => lastSource start rest

/-- The bytes of the live source, or the own bundle set last if it has none.  The call
asks for the source after the events `earlier` and ends after those in `later`. -/
def currentBundle (start : Bytes) (live : σ → Bytes) (earlier later : List (Event σ)) : Bytes :=
  match lastSource none earlier with
  | some src =>
    if live src = [] then lastBundle start (earlier ++ later) else live src
  | none => lastBundle start (earlier ++ later)

/-! ## The fields of the registry along a run -/

/-- Bundles are kept for configured peers only. -/
def Registry.Known (r : Registry σ) : Prop :=
  ∀ td, (r.peerBundles td).isSome = true → ∃ p ∈ r.peers, p.trustDomain = td

namespace Registry

/-- What an answer of a peer leaves alone. -/
theorem refreshOne_frame (out : Outside) (r : Registry σ) (p : PeerConfig)
    (tdf pem : Option Answer) :
    (r.refreshOne out p tdf pem).ownTD = r.ownTD ∧
      (r.refreshOne out p tdf pem).ownBundle = r.ownBundle ∧
      (r.refreshOne out p tdf pem).ownSource = r.ownSource ∧
      (r.refreshOne out p tdf pem).peers = r.peers := by
  unfold refreshOne
  split <;> exact ⟨rfl, rfl, rfl, rfl⟩

variable {r : Registry σ}

theorem known_refreshOne (known : r.Known) {p : PeerConfig} (configured : p ∈ r.peers)
    (tdf pem : Option Answer) : (r.refreshOne out p tdf pem).Known := by
  intro td kept
  obtain ⟨_, _, _, samePeers⟩ := refreshOne_frame out r p tdf pem
  rw [samePeers]
  by_cases same : td = p.trustDomain
  · exact ⟨p, configured, same.symm⟩
  refine known td ?_
  unfold refreshOne at kept
  split at kept
  · exact kept
  · dsimp only at kept
    rwa [Function.update_of_ne same] at kept

/-- One event, field by field. -/
theorem step_spec (out : Outside) (known : r.Known) (event : Event σ) :
    (r.step out event).Known ∧ (r.step out event).ownTD = r.ownTD ∧
      (r.step out event).peers = r.peers ∧
      (r.step out event).ownBundle = lastBundle r.ownBundle [event] ∧
      (r.step out event).ownSource = lastSource r.ownSource [event] := by
  cases event with
  | refresh peer tdf pem =>
    cases found : r.peers[peer]? with
    | none =>
      have stepped : r.step out (.refresh peer tdf pem) = r := by simp [step, found]
      rw [stepped]
      exact ⟨known, rfl, rfl, rfl, rfl⟩
    | some p =>
      have stepped : r.step out (.refresh peer tdf pem) = r.refreshOne out p tdf pem := by
        simp [step, found]
      rw [stepped]
      obtain ⟨sameTD, sameBundle, sameSource, samePeers⟩ :=
        refreshOne_frame out r p tdf pem
      refine ⟨known_refreshOne known (List.mem_of_getElem? found) tdf pem, sameTD, samePeers,
        sameBundle, sameSource⟩
  | setOwnBundle | setOwnBundleSource => exact ⟨known, rfl, rfl, rfl, rfl⟩

end Registry

theorem lastBundle_cons (start : Bytes) (event : Event σ) (rest : List (Event σ)) :
    lastBundle start (event :: rest) = lastBundle (lastBundle start [event]) rest := by
  cases event <;> rfl

theorem lastSource_cons (start : Option σ) (event : Event σ) (rest : List (Event σ)) :
    lastSource start (event :: rest) = lastSource (lastSource start [event]) rest := by
  cases event <;> rfl

variable {r : Registry σ} {p : PeerConfig} {peers : List PeerConfig} {ownTD ownBundle : Bytes}
  {refresh : Int}

/-- A run keeps the own trust domain and the peers, and its own bundle and source are
those set last. -/
theorem Registry.run_spec (out : Outside) (known : r.Known) (events : List (Event σ)) :
    (r.run out events).Known ∧ (r.run out events).ownTD = r.ownTD ∧
      (r.run out events).peers = r.peers ∧
      (r.run out events).ownBundle = lastBundle r.ownBundle events ∧
      (r.run out events).ownSource = lastSource r.ownSource events := by
  induction events generalizing r with
  | nil => exact ⟨known, rfl, rfl, rfl, rfl⟩
  | cons event events ih =>
  obtain ⟨knownAfter, sameTD, samePeers, bundle, source⟩ := step_spec out known event
  obtain ⟨knownEnd, endTD, endPeers, endBundle, endSource⟩ := ih knownAfter
  refine ⟨knownEnd, endTD.trans sameTD, endPeers.trans samePeers, ?_, ?_⟩
  · rw [lastBundle_cons, ← bundle]
    exact endBundle
  · rw [lastSource_cons, ← source]
    exact endSource

/-! ## Accepted registries -/

/-- Every peer has a valid trust domain. -/
theorem trustDomain_of_buildPeerClient {client : Client}
    (built : buildPeerClient out p = .ok client) :
    SpiffeId.trustDomainFromString p.trustDomain ≠ none := by
  intro unnamed
  unfold buildPeerClient at built
  split at built
  · cases built
  · rw [if_pos unnamed] at built
    cases built

/-- The peers that were added, under their canonical names, each with a client. -/
theorem addPeers_spec {added result : List PeerConfig × (Bytes → Option Client)}
    (accepted : peers.foldlM (addPeer out) added = .ok result) :
    result.1 = added.1 ++ peers.map (canonical out) ∧
      (∀ td, (added.2 td).isSome = true → (result.2 td).isSome = true) ∧
      ∀ p ∈ peers, (result.2 (out.toLower p.trustDomain)).isSome = true ∧
        SpiffeId.trustDomainFromString (out.toLower p.trustDomain) ≠ none := by
  induction peers generalizing added with
  | nil =>
    obtain rfl := Except.ok.inj accepted
    simp
  | cons p peers ih =>
  rw [List.foldlM_cons] at accepted
  obtain ⟨between, first, rest⟩ := bind_eq_ok.mp accepted
  obtain ⟨_, first⟩ := ite_error_eq_ok.mp first
  obtain ⟨client, built, made⟩ := bind_eq_ok.mp first
  obtain rfl := Except.ok.inj made
  obtain ⟨listed, kept, clients⟩ := ih rest
  refine ⟨by simp [listed], ?_, ?_⟩
  · intro td present
    refine kept td ?_
    dsimp only
    by_cases same : td = (canonical out p).trustDomain
    · rw [same, Function.update_self]
      rfl
    · rw [Function.update_of_ne same]
      exact present
  · intro other member
    rcases List.mem_cons.mp member with rfl | member
    · refine ⟨kept _ ?_, trustDomain_of_buildPeerClient built⟩
      simp [canonical]
    · exact clients other member

theorem newRegistry_spec (accepted : newRegistry out ownTD ownBundle peers refresh = .ok r) :
    r.Known ∧ r.ownTD = ownTD ∧ r.ownBundle = ownBundle ∧ r.ownSource = none ∧
      r.peers = peers.map (canonical out) ∧
      ∀ p ∈ peers, (r.peerClients (out.toLower p.trustDomain)).isSome = true ∧
        SpiffeId.trustDomainFromString (out.toLower p.trustDomain) ≠ none := by
  obtain ⟨⟨canon, clients⟩, added, made⟩ := bind_eq_ok.mp accepted
  obtain rfl := Except.ok.inj made
  obtain ⟨listed, _, known⟩ := addPeers_spec added
  exact ⟨fun _ impossible => absurd impossible (by simp), rfl, rfl, rfl, by simpa using listed,
    known⟩

/-! ## The map -/

theorem bundles_of_none {live : σ → Bytes} {first second : Registry σ}
    (unknown : second.peerBundles second.ownTD = none) :
    Registry.bundles live first second second.ownTD = some
      (if (match first.ownSource with
          | some src => live src
          | none => []) = [] then second.ownBundle
        else match first.ownSource with
          | some src => live src
          | none => []) := by
  unfold Registry.bundles
  rw [unknown]
  exact if_pos rfl

/-- Without a peer under the own name, the own name is served with the own bundle. -/
theorem bundles_own (accepted : newRegistry out ownTD ownBundle peers refresh = .ok r)
    (apart : ∀ p ∈ peers, out.toLower p.trustDomain ≠ ownTD) (live : σ → Bytes)
    (earlier later : List (Event σ)) :
    Registry.bundles live (r.run out earlier) (r.run out (earlier ++ later)) ownTD =
      some (currentBundle ownBundle live earlier later) := by
  obtain ⟨known, rfl, rfl, noSource, listed, _⟩ := newRegistry_spec accepted
  obtain ⟨_, _, _, _, source⟩ := Registry.run_spec out known earlier
  obtain ⟨knownEnd, sameTD, samePeers, bundle, _⟩ :=
    Registry.run_spec out known (earlier ++ later)
  have unknown : (r.run out (earlier ++ later)).peerBundles
      (r.run out (earlier ++ later)).ownTD = none := by
    by_contra present
    obtain ⟨p, configured, named⟩ := knownEnd _ (Option.isSome_iff_ne_none.mpr present)
    rw [samePeers, listed] at configured
    obtain ⟨source, member, rfl⟩ := List.mem_map.mp configured
    exact apart source member (named.trans sameTD)
  rw [← sameTD, bundles_of_none unknown, source, bundle, noSource]
  unfold currentBundle
  cases lastSource none earlier <;> simp

/-- A bundle document with a certificate is fetched. -/
theorem fetchPeer_of_document {peer : PeerConfig} {td body : Bytes} {anchors : List Bytes}
    {hint : Option Int} (named : SpiffeId.trustDomainFromString peer.trustDomain = some td)
    (client : (r.clientFor out peer.trustDomain).isSome = true) (short : body.length ≤ maxBody)
    (document : out.readBundle td body = some (anchors, hint)) (anchored : anchors ≠ []) :
    r.fetchPeer out peer (some ⟨200, body⟩) none =
      .ok (anchors.flatMap certificatePEM, hint.getD 0) := by
  obtain ⟨verified, isClient⟩ := Option.isSome_iff_exists.mp client
  simp [Registry.fetchPeer, Registry.fetchTDF, named, isClient, List.take_of_length_le short,
    document, anchored]

/-- A peer under the own name is served in place of the own bundle. -/
theorem bundles_peer (lowered : ∀ text, out.toLower (out.toLower text) = out.toLower text)
    (documents : ∀ td, ∃ body anchors hint, body.length ≤ maxBody ∧
      out.readBundle td body = some (anchors, hint) ∧ anchors ≠ [])
    (accepted : newRegistry out ownTD ownBundle peers refresh = .ok r) (member : p ∈ peers)
    (named : out.toLower p.trustDomain = ownTD) (live : σ → Bytes) :
    ∃ earlier : List (Event σ), Registry.bundles live (r.run out earlier)
      (r.run out (earlier ++ [])) ownTD ≠ some (currentBundle ownBundle live earlier []) := by
  obtain ⟨_, _, _, noSource, listed, clients⟩ := newRegistry_spec accepted
  obtain ⟨client, valid⟩ := clients p member
  obtain ⟨td, trusted⟩ := Option.ne_none_iff_exists'.mp valid
  obtain ⟨body, anchors, hint, short, document, anchored⟩ := documents td
  have configured : canonical out p ∈ r.peers := by
    rw [listed]
    exact List.mem_map_of_mem member
  obtain ⟨place, found⟩ := List.mem_iff_getElem?.mp configured
  have isClient : (r.clientFor out (canonical out p).trustDomain).isSome = true := by
    simpa [Registry.clientFor, canonical, lowered] using client
  have fetched := fetchPeer_of_document trusted isClient short document anchored
  -- The peer is refreshed, and then the own bundle becomes something else.
  refine ⟨[.refresh place (some ⟨200, body⟩) none,
    .setOwnBundle (anchors.flatMap certificatePEM ++ [0])], ?_⟩
  have refreshed : (r.step out (.refresh place (some ⟨200, body⟩) none)).peerBundles ownTD =
      some (anchors.flatMap certificatePEM) := by
    have stepped : r.step out (.refresh place (some ⟨200, body⟩) none) =
        r.refreshOne out (canonical out p) (some ⟨200, body⟩) none := by
      simp [Registry.step, found]
    rw [stepped, Registry.refreshOne, fetched, ← named]
    exact Function.update_self ..
  rw [List.append_nil]
  unfold Registry.bundles Registry.run
  dsimp only [List.foldl_cons, List.foldl_nil, Registry.step, Registry.setOwnBundle] at refreshed ⊢
  rw [refreshed]
  simp [currentBundle, lastSource, lastBundle]

/-- The own trust domain is served with the own bundle in every run, if and only if no
peer is configured under its name. -/
theorem own_bundle_served_iff {ownTD ownBundle : Bytes} {peers : List PeerConfig}
    {refresh : Int} {r : Registry σ}
    (lowered : ∀ text, out.toLower (out.toLower text) = out.toLower text)
    (documents : ∀ td, ∃ body anchors hint, body.length ≤ maxBody ∧
      out.readBundle td body = some (anchors, hint) ∧ anchors ≠ [])
    (accepted : newRegistry out ownTD ownBundle peers refresh = .ok r) :
    (∀ (live : σ → Bytes) (earlier later : List (Event σ)),
        Registry.bundles live (r.run out earlier) (r.run out (earlier ++ later)) ownTD =
          some (currentBundle ownBundle live earlier later)) ↔
      ∀ p ∈ peers, out.toLower p.trustDomain ≠ ownTD := by
  constructor
  · intro served p member named
    obtain ⟨earlier, wrong⟩ := bundles_peer lowered documents accepted member named fun _ => []
    exact wrong (served _ earlier [])
  · exact fun apart live earlier later => bundles_own accepted apart live earlier later

/-! ## A peer under the own name -/

/-- A world in which every document holds one certificate. -/
def sampleOutside : Outside where
  toLower := id
  parseURL _ := some ⟨ascii "https", ascii "peer", [], []⟩
  certsFromPEM _ := some 1
  loadBundle _ _ := some 1
  readBundle _ _ := some ([[1, 2, 3]], none)
  parsesCertificate _ := true

/-- The registry of `omega.local` with one `--federate-with` entry. -/
def sampleRegistry (entry : Bytes) : Except PeerError (Registry Unit) := do
  let peers ← parseFederatePeers sampleOutside [entry] false
  newRegistry sampleOutside (ascii "omega.local") (ascii "own") peers 0

/-- The flag may name the own trust domain; then the peer's answer is served for it. -/
theorem peer_overrides_own_bundle :
    let refresh : List (Event Unit) := [.refresh 0 (some ⟨200, []⟩) none]
    (sampleRegistry (ascii "name=omega.local,url=https://peer")).map (fun r =>
        Registry.bundles (fun _ => []) (r.run sampleOutside refresh)
          (r.run sampleOutside refresh) (ascii "omega.local")) =
        .ok (some (certificatePEM [1, 2, 3])) ∧
      currentBundle (ascii "own") (fun _ => []) refresh [] = ascii "own" ∧
      certificatePEM [1, 2, 3] ≠ ascii "own" := by
  refine ⟨?_, rfl, ?_⟩ <;> decide +kernel

/-- Next to a peer with another name, the own bundle is served. -/
theorem own_bundle_served_beta :
    ∃ r : Registry Unit,
      newRegistry sampleOutside (ascii "omega.local") (ascii "own")
          [⟨ascii "omega.beta", ascii "https://peer", .unset, [], [], []⟩] 0 = .ok r ∧
        ∀ (live : Unit → Bytes) (earlier later : List (Event Unit)),
          Registry.bundles live (r.run sampleOutside earlier)
              (r.run sampleOutside (earlier ++ later)) (ascii "omega.local") =
            some (currentBundle (ascii "own") live earlier later) := by
  have isAccepted : (newRegistry sampleOutside (ascii "omega.local") (ascii "own")
      [⟨ascii "omega.beta", ascii "https://peer", .unset, [], [], []⟩] 0 :
        Except PeerError (Registry Unit)).isOk = true := by decide +kernel
  obtain ⟨r, accepted⟩ := exists_eq_ok_of_isOk isAccepted
  refine ⟨r, accepted, (own_bundle_served_iff (fun _ => rfl) ?_ accepted).mpr ?_⟩
  · exact fun _ => ⟨[], [[1, 2, 3]], none, by decide, rfl, by decide⟩
  · intro p member
    obtain rfl := List.mem_singleton.mp member
    decide +kernel

end OmegaPlane.Federation

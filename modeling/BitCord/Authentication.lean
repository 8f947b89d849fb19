import BitCord.Lib.Run
import BitCord.Sample

/-!
# Sessions over whole connections

A connection is a list of requests. The store, the clocks and the other services may change in
any way between two requests, so every request carries the services it meets. The signed nonce of
`Authenticate` is chosen by the client and names no node, so a recorded request is good on every
other node (`replay_iff_recorded`). Whatever a session is allowed to do in a community, an earlier
request of the same session entitled it to (`session_authorisation`).
-/

namespace BitCord

open Lib

variable {c : Conn} {password : Option String} {cpk : Key} {remote : NodeAddr} {req : ClientRequest}
  {s : ClientSession}

/-- A request with what the node reads while it handles it. -/
structure Request where
  env : Env
  remote : NodeAddr
  services : NodeServices
  request : ClientRequest

section

variable (P : Prims)

def Request.handle (r : Request) (s : ClientSession) : Conn × NodeResponse :=
  dispatch P r.env r.remote ⟨s, r.services⟩ r.request

def sessionStep (s : ClientSession) (r : Request) : ClientSession := (r.handle P s).1.session

def sessionAfter (reqs : List Request) : ClientSession :=
  Run.run (sessionStep P) ClientSession.fresh reqs

end

variable {P : Prims}

/-! ## What one request can do to a session -/

theorem joined_handleJoinCommunity {env : Env} {cert : HostingCert}
    {communityId : Option String}
    (h : cpk ∈
      (handleJoinCommunity P env c cert communityId password).1.session.joinedCommunities) :
    cpk ∈ c.session.joinedCommunities ∨
      cert.communityPk = cpk ∧ joinRefusal P env c cert password = none := by
  unfold handleJoinCommunity at h
  cases hr : joinRefusal P env c cert password with
  | some resp => rw [hr] at h; exact .inl h
  | none =>
    rw [hr] at h
    dsimp only at h
    split at h
    · exact .inl h
    · rcases List.mem_append.mp h with h | h
      · exact .inl h
      · exact .inr ⟨(List.mem_singleton.mp h).symm, rfl⟩

theorem clientPk_handleJoinCommunity (env : Env) (c : Conn) (cert : HostingCert)
    (communityId password : Option String) :
    (handleJoinCommunity P env c cert communityId password).1.session.clientPk =
      c.session.clientPk := by
  unfold handleJoinCommunity
  split
  · rfl
  · dsimp only
    split <;> rfl

theorem dispatch_session {env : Env}
    (hauth : ∀ pk sigR sigS nonce, req ≠ .authenticate pk sigR sigS nonce)
    (hjoin : ∀ cert communityId password, req ≠ .joinCommunity cert communityId password) :
    (dispatch P env remote c req).1.session = c.session := by
  cases req <;> simp only [dispatch]
  case authenticate pk sigR sigS nonce => exact absurd rfl (hauth pk sigR sigS nonce)
  case joinCommunity cert cid pw => exact absurd rfl (hjoin cert cid pw)
  case sendMessage => split <;> [rfl; split <;> rfl]
  case getMessages => split <;> [rfl; split <;> [rfl; split <;> rfl]]
  case sendDm =>
    split
    · rfl
    · simp only [handleSendDm]
      split <;> rfl
  case getDms => split <;> [rfl; split <;> rfl]
  case fetchManifest => split <;> rfl
  case gossip => split <;> rfl
  case pushManifest => split <;> rfl
  case pushHistory => split <;> rfl
  case storePeerInfo =>
    simp only [handleStorePeerInfo]
    split <;> [rfl; split <;> [rfl; split <;> rfl]]
  all_goals rfl

theorem dispatch_authenticate (env : Env) (remote : NodeAddr) (c : Conn)
    (pk sigR sigS nonce : Key) :
    (dispatch P env remote c (.authenticate pk sigR sigS nonce)).1.session =
      if P.vkValid pk && P.verifyStrict pk (toBytes nonce) (sigR ++ sigS) then
        { c.session with clientPk := some pk }
      else c.session := by
  cases hv : P.vkValid pk <;> cases hs : P.verifyStrict pk (toBytes nonce) (sigR ++ sigS) <;>
    simp [dispatch, handleAuthenticate, hv, hs, err, Conn.mapDht]

/-- The key of a session comes from an `Authenticate` request that verified. -/
theorem dispatch_clientPk {env : Env}
    {pk : Key} (h : (dispatch P env remote c req).1.session.clientPk = some pk) :
    c.session.clientPk = some pk ∨ ∃ sigR sigS nonce,
      req = .authenticate pk sigR sigS nonce ∧
      P.verifyStrict pk (toBytes nonce) (sigR ++ sigS) = true := by
  cases req
  case authenticate pk' sigR sigS nonce =>
    rw [dispatch_authenticate] at h
    split at h
    · next hok =>
      cases h
      exact .inr ⟨sigR, sigS, nonce, rfl, ((Bool.and_eq_true _ _).mp hok).2⟩
    · exact .inl h
  case joinCommunity cert cid pw =>
    refine .inl ?_
    simp only [dispatch] at h
    split at h
    · exact h
    · rwa [clientPk_handleJoinCommunity] at h
  all_goals
    refine .inl ?_
    rwa [dispatch_session (by simp) (by simp)] at h

/-- A joined community comes from a `JoinCommunity` request that was not refused. -/
theorem dispatch_joined {env : Env}
    (h : cpk ∈ (dispatch P env remote c req).1.session.joinedCommunities) :
    cpk ∈ c.session.joinedCommunities ∨ ∃ cert communityId password,
      req = .joinCommunity cert communityId password ∧ cert.communityPk = cpk ∧
      joinRefusal P env c cert password = none := by
  cases req
  case authenticate pk sigR sigS nonce =>
    rw [dispatch_authenticate] at h
    split at h <;> exact .inl h
  case joinCommunity cert cid pw =>
    simp only [dispatch] at h
    split at h
    · exact .inl h
    · rcases joined_handleJoinCommunity h with h | ⟨hpk, hr⟩
      · exact .inl h
      · exact .inr ⟨cert, cid, pw, rfl, hpk, hr⟩
  all_goals
    refine .inl ?_
    rwa [dispatch_session (by simp) (by simp)] at h

/-! ## Replayed authentication -/

/-- A request that can be made without the signing key `sk`, by a party that has seen the
`Authenticate` requests for the nonces `recorded`: signatures under the key are unforgeable, so
one that verifies is over a recorded nonce. -/
def BuiltFrom (P : Prims) (sk : Key) (recorded : List Key) : ClientRequest → Prop
  | .authenticate pk sigR sigS nonce =>
    pk = P.verifyingKey sk → P.verifyStrict pk (toBytes nonce) (sigR ++ sigS) = true →
      nonce ∈ recorded
  | _ => True

theorem extract_append (s : Signature) : s.extractLsb' 256 256 ++ s.extractLsb' 0 256 = s := by
  have h : s.extractLsb' 256 256 ++ s.extractLsb' 0 256 = s.extractLsb' 0 (256 + 256) :=
    BitVec.extractLsb'_append_extractLsb'_eq_extractLsb' rfl
  exact h.trans BitVec.extractLsb'_eq_self

/-- A recorded `Authenticate` request authenticates any session on any node as its author. -/
theorem sessionStep_connectRequest (hP : P.Lawful) (sk nonce : Key) (s : ClientSession)
    (r : Request) (hr : r.request = connectRequest P sk nonce) :
    (sessionStep P s r).clientPk = some (P.verifyingKey sk) := by
  unfold sessionStep Request.handle
  rw [hr]
  unfold connectRequest
  dsimp only
  rw [dispatch_authenticate, extract_append, hP.vkValid_verifyingKey, hP.verifyStrict_sign]
  rfl

/-- A party that recorded the `Authenticate` requests of a client with the nonces `recorded` can
be authenticated as that client on a node if and only if it recorded at least one. -/
theorem replay_iff_recorded (hP : P.Lawful) (sk : Key) (recorded : List Key)
    (services : NodeServices) :
    (∀ reqs : List Request,
      (∀ r ∈ reqs, r.services.nodePk = services.nodePk ∧ BuiltFrom P sk recorded r.request) →
      (sessionAfter P reqs).clientPk ≠ some (P.verifyingKey sk)) ↔ recorded = [] := by
  constructor
  · intro h
    cases recorded with
    | nil => rfl
    | cons nonce rest =>
      -- replay the first recorded request on a fresh connection
      let r : Request := ⟨Sample.env, Sample.addr, services, connectRequest P sk nonce⟩
      refine absurd (sessionStep_connectRequest hP sk nonce ClientSession.fresh r rfl) (h [r] ?_)
      intro r' hr'
      rw [List.mem_singleton.mp hr']
      exact ⟨rfl, fun _ _ => List.mem_cons_self⟩
  · rintro rfl reqs hreqs hpk
    -- the request that authenticated the session would carry a forged signature
    have halong : Run.Along (sessionStep P) (fun _ r => r ∈ reqs) ClientSession.fresh reqs :=
      Run.along_of_forall fun _ r hr => hr
    obtain ⟨pre, r, post, -, hbefore, hafter, hmem⟩ := halong.exists_crossing
      (P := fun s => s.clientPk = some (P.verifyingKey sk)) (by simp [ClientSession.fresh]) hpk
    rcases dispatch_clientPk hafter with h | ⟨sigR, sigS, nonce, hreq, hsig⟩
    · exact hbefore h
    · have hbuilt := (hreqs r hmem).2
      rw [hreq] at hbuilt
      exact List.not_mem_nil (hbuilt rfl hsig)

/-- The client with signing key 5 connects to a node once, with the nonce 77; its request opens a
session of that client on the node with key 99. -/
theorem recorded_request_authenticates_elsewhere :
    ∃ reqs : List Request,
      (∀ r ∈ reqs, r.services.nodePk = 99 ∧
        BuiltFrom (Sample.prims [] []) 5 [77] r.request) ∧
      (sessionAfter (Sample.prims [] []) reqs).clientPk =
        some ((Sample.prims [] []).verifyingKey 5) := by
  refine ⟨[⟨Sample.env, Sample.addr, Sample.services 99,
    connectRequest (Sample.prims [] []) 5 77⟩], ?_, by decide +kernel⟩
  intro r hr
  rw [List.mem_singleton.mp hr]
  exact ⟨rfl, fun _ _ => List.mem_singleton.mpr rfl⟩

theorem replay_iff_recorded_sample :
    (∀ reqs : List Request,
      (∀ r ∈ reqs, r.services.nodePk = 99 ∧ BuiltFrom (Sample.prims [] []) 5 [] r.request) →
      (sessionAfter (Sample.prims [] []) reqs).clientPk ≠
        some ((Sample.prims [] []).verifyingKey 5)) ↔ ([] : List Key) = [] :=
  replay_iff_recorded (Sample.prims_lawful [] []) 5 [] (Sample.services 99)

/-! ## What entitles a session to a community -/

/-- The certificate is signed by the community key for this node and has not expired. -/
structure ValidCert (P : Prims) (r : Request) (cert : HostingCert) : Prop where
  keyValid : P.vkValid cert.communityPk = true
  forThisNode : cert.nodePk = r.services.nodePk
  signed : P.verify cert.communityPk
    (HostingCert.signable cert.communityPk cert.nodePk cert.expiresAt) cert.signature = true
  notExpired : r.env.unixNow ≤ cert.expiresAt

def StoredMember (s : ClientSession) (r : Request) (cpk : Key) : Prop :=
  ∃ pk m user record, s.clientPk = some pk ∧
    r.services.store.getCommunityMeta cpk = .ok (some m) ∧
    m.members.lookup user = some record ∧ record.publicKey = pk

/-- The configured join password was supplied; leaving it out supplies the empty one. -/
def PasswordSupplied (r : Request) (password : Option String) : Prop :=
  ∀ required, r.services.joinPassword = some required →
    password = some required ∨ required = "" ∧ password = none

/-- One of the requests was a `JoinCommunity` for `cpk` by a stored member, or with the password
and a valid certificate. -/
def EntitledBy (P : Prims) (reqs : List Request) (cpk : Key) : Prop :=
  ∃ before r after cert communityId password,
    reqs = before ++ r :: after ∧ r.request = .joinCommunity cert communityId password ∧
    cert.communityPk = cpk ∧
    (StoredMember (sessionAfter P before) r cpk ∨ PasswordSupplied r password ∧ ValidCert P r cert)

variable {r : Request}

theorem storedMember_of_isKnownMember (h : isKnownMember r.services.store cpk s.clientPk = true) :
    StoredMember s r cpk := by
  unfold isKnownMember NodeStore.meta? at h
  cases hm : r.services.store.getCommunityMeta cpk with
  | error e => rw [hm] at h; cases h
  | ok m? =>
    rw [hm] at h
    cases m? with
    | none => cases h
    | some m =>
      cases hpk : s.clientPk with
      | none => rw [hpk] at h; cases h
      | some pk =>
        rw [hpk] at h
        obtain ⟨record, hmem, hkey⟩ := List.any_eq_true.mp h
        obtain ⟨user, hlookup⟩ := Dict.mem_vals.mp hmem
        exact ⟨pk, m, user, record, hpk, hm, hlookup, of_decide_eq_true hkey⟩

theorem passwordSupplied_of_accepted
    (h : passwordAccepted r.services.joinPassword password = true) :
    PasswordSupplied r password := by
  intro required hreq
  rw [hreq] at h
  have heq : password.getD "" = required := of_decide_eq_true h
  cases password with
  | none => exact .inr ⟨heq.symm, rfl⟩
  | some p => exact .inl (congrArg some heq)

theorem verify_eq_ok {cert : HostingCert} {now : UInt64}
    (h : cert.verify P cert.communityPk now = .ok ()) :
    P.verify cert.communityPk
        (HostingCert.signable cert.communityPk cert.nodePk cert.expiresAt) cert.signature = true ∧
      now ≤ cert.expiresAt := by
  unfold HostingCert.verify at h
  rw [if_neg (fun hne => hne rfl)] at h
  split at h
  · cases h
  · next hsig =>
    split at h
    · cases h
    · next hnow => exact ⟨by simpa using hsig, UInt64.not_lt.mp hnow⟩

/-- A `JoinCommunity` request that is not refused comes from a stored member, or has the password
and a valid certificate. -/
theorem entitled_of_not_refused {cert : HostingCert}
    (h : joinRefusal P r.env ⟨s, r.services⟩ cert password = none) :
    StoredMember s r cert.communityPk ∨ PasswordSupplied r password ∧ ValidCert P r cert := by
  unfold joinRefusal at h
  split at h
  · cases h
  · next hkey =>
    split at h
    · next hmember => exact .inl (storedMember_of_isKnownMember hmember)
    · split at h
      · cases h
      · next hpw =>
        split at h
        · cases h
        · next hnode =>
          split at h
          · cases h
          · next hverify =>
            obtain ⟨hsig, hnow⟩ := verify_eq_ok hverify
            exact .inr ⟨passwordSupplied_of_accepted (by simpa using hpw),
              ⟨by simpa using hkey, by simpa using hnode, hsig, hnow⟩⟩

theorem entitledBy_of_joined {reqs : List Request}
    (h : cpk ∈ (sessionAfter P reqs).joinedCommunities) : EntitledBy P reqs cpk := by
  have halong : Run.Along (sessionStep P) (fun _ _ => True) ClientSession.fresh reqs :=
    Run.along_of_forall fun _ _ _ => trivial
  obtain ⟨before, r, after, hsplit, hnot, hin, -⟩ := halong.exists_crossing
    (P := fun s => cpk ∈ s.joinedCommunities) (by simp [ClientSession.fresh]) h
  rcases dispatch_joined hin with h | ⟨cert, cid, pw, hreq, hpk, hr⟩
  · exact absurd h hnot
  · refine ⟨before, r, after, cert, cid, pw, hsplit, hreq, hpk, ?_⟩
    rw [← hpk]
    exact entitled_of_not_refused hr

/-! ## Authorisation of a session -/

def ClientRequest.ActsOn (cpk : Key) : ClientRequest → Prop
  | .sendMessage communityPk _ _ _ => communityPk = cpk
  | .getMessages communityPk _ _ => communityPk = cpk
  | .pushManifest communityPk _ _ _ _ => communityPk = cpk
  | .pushHistory communityPk _ _ => communityPk = cpk
  | _ => False

/-- The pushes that handling a request broadcasts. -/
def Request.newPushes (P : Prims) (r : Request) (s : ClientSession) : List PushPayload :=
  (r.handle P s).1.services.pushes.drop r.services.pushes.length

/-- A push for a message that some session sent in the community `cpk`. -/
def NewMessageOf (P : Prims) (cpk : Key) (payload : PushPayload) : Prop :=
  ∃ (r : Request) (s : ClientSession) (channelId : Ulid) (nonce : Nonce) (ciphertext : Bytes),
    r.request = .sendMessage cpk channelId nonce ciphertext ∧ payload ∈ r.newPushes P s

theorem joined_of_not_error (hreq : r.request.ActsOn cpk) (hok : (r.handle P s).2.isError = false) :
    cpk ∈ s.joinedCommunities := by
  by_contra hnot
  have hjoined : s.joinedCommunities.contains cpk = false := by simpa using hnot
  obtain ⟨env, remote, services, req⟩ := r
  unfold Request.handle at hok
  cases req <;> cases hreq <;> simp only [dispatch, hjoined] at hok
  case sendMessage => split at hok <;> cases hok
  case getMessages => split at hok <;> cases hok
  case pushManifest => simp at hok; cases hok
  case pushHistory => simp at hok; cases hok

theorem filter_of_newMessageOf {payload : PushPayload}
    (h : NewMessageOf P cpk payload) : payload.1 = some cpk := by
  obtain ⟨⟨env, remote, services, req⟩, s, channelId, nonce, ciphertext, rfl, hmem⟩ := h
  unfold Request.newPushes Request.handle at hmem
  simp only [dispatch] at hmem
  split at hmem
  · simp at hmem
  · split at hmem
    · simp at hmem
    · simp [handleSendMessage, Conn.push, Conn.withStore] at hmem
      rw [hmem]

/-- Whenever a session acts in a community or is sent one of its messages, an earlier request of
the session was entitled to the community. -/
theorem session_authorisation (P : Prims) (reqs : List Request) (cpk : Key) :
    (∀ r : Request, r.request.ActsOn cpk →
      (r.handle P (sessionAfter P reqs)).2.isError = false → EntitledBy P reqs cpk) ∧
    (∀ payload, NewMessageOf P cpk payload →
      (sessionAfter P reqs).shouldSend payload = true → EntitledBy P reqs cpk) := by
  constructor
  · intro r hreq hok
    exact entitledBy_of_joined (joined_of_not_error hreq hok)
  · intro payload hpayload hsend
    unfold ClientSession.shouldSend at hsend
    rw [filter_of_newMessageOf hpayload] at hsend
    exact entitledBy_of_joined (List.contains_iff_mem.mp hsend)

namespace Sample

/-- A certificate of the community with signing key 20 for the node with key 99. -/
def cert : HostingCert :=
  ⟨21, 99, maxSeq, (prims [] []).sign 20 (HostingCert.signable 21 99 maxSeq)⟩

def request (req : ClientRequest) : Request := ⟨env, addr, services 99, req⟩

def joinRequests : List Request :=
  [request (connectRequest (prims [] []) 5 77), request (.joinCommunity cert none none)]

end Sample

theorem session_authorisation_sample :
    ((Sample.request (.getMessages 21 7 0)).handle (Sample.prims [] [])
      (sessionAfter (Sample.prims [] []) Sample.joinRequests)).2.isError = false ∧
    EntitledBy (Sample.prims [] []) Sample.joinRequests 21 :=
  have hok : ((Sample.request (.getMessages 21 7 0)).handle (Sample.prims [] [])
      (sessionAfter (Sample.prims [] []) Sample.joinRequests)).2.isError = false := by
    decide +kernel
  ⟨hok, (session_authorisation (Sample.prims [] []) Sample.joinRequests 21).1
    (Sample.request (.getMessages 21 7 0)) rfl hok⟩

end BitCord

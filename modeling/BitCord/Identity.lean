import BitCord.Authentication

/-!
# Sessions and identities

The identity of a session is the key of its last valid `Authenticate` request. A session without an
identity is inert (`unauthenticated_inert`). A session may also authenticate again under another
key, and then keeps the communities that it joined under the old one (`attributed_iff`,
`message_of_another_identity`).
-/

namespace BitCord

open Lib Lib.Run

variable {c : Conn} {s : ClientSession} {r : Request} {k cpk : Key} {nonce : Nonce}
  {ciphertext : Bytes}

section

variable (P : Prims)

/-- The key that an `Authenticate` request proves: its signature over the nonce verifies. -/
def ClientRequest.provenKey : ClientRequest → Option Key
  | .authenticate pk sigR sigS nonce =>
    if P.vkValid pk && P.verifyStrict pk (toBytes nonce) (sigR ++ sigS) then some pk else none
  | _ => none

def lastKey (reqs : List Request) : Option Key :=
  (reqs.filterMap fun r => r.request.provenKey P).getLast?

end

variable {P : Prims}

/-! ## The identity of a session -/

variable (env : Env) (remote : NodeAddr)

theorem clientPk_dispatch (c : Conn) (req : ClientRequest) :
    (dispatch P env remote c req).1.session.clientPk =
      (req.provenKey P).or c.session.clientPk := by
  cases req
  case authenticate pk sigR sigS nonce =>
    rw [dispatch_authenticate, ClientRequest.provenKey]
    split <;> rfl
  case joinCommunity cert cid pw =>
    simp only [dispatch]
    split
    · rfl
    · exact clientPk_handleJoinCommunity env c cert cid pw
  all_goals
    rw [dispatch_session (by simp) (by simp)]
    rfl

theorem clientPk_sessionStep (s : ClientSession) (r : Request) :
    (sessionStep P s r).clientPk = (r.request.provenKey P).or s.clientPk :=
  clientPk_dispatch r.env r.remote ⟨s, r.services⟩ r.request

/-- A session has the identity that was proven last. -/
theorem clientPk_sessionAfter (reqs : List Request) :
    (sessionAfter P reqs).clientPk = lastKey P reqs := by
  refine invariant_of_history (sessionStep P) (s := ClientSession.fresh)
    (I := fun reqs s => s.clientPk = lastKey P reqs) rfl (fun reqs r ih => ?_) reqs
  rw [clientPk_sessionStep, ih]
  unfold lastKey
  rw [List.filterMap_append, List.getLast?_append]
  cases hr : r.request.provenKey P <;> simp [hr]

/-! ## Sessions without an identity -/

/-- The responses that hand out stored data or confirm a write. -/
def NodeResponse.grants : NodeResponse → Bool
  | .messages _ => true
  | .dms _ => true
  | .manifest _ _ _ _ => true
  | .messageAck _ => true
  | .dmAck _ => true
  | .pushAck => true
  | .gossipAck => true
  | _ => false

/-- A request that left no trace in the store, in the pushes and in the commands, and got nothing
out of the store. -/
structure Inert (sv : NodeServices) (out : Conn × NodeResponse) : Prop where
  store : out.1.services.store = sv.store
  pushes : out.1.services.pushes = sv.pushes
  commands : out.1.services.commands = sv.commands
  response : out.2.grants = false

theorem inert_refused {code : UInt16} {msg : String} :
    Inert c.services (c, err code msg) := ⟨rfl, rfl, rfl, rfl⟩

theorem inert_authenticate (c : Conn) (pk sigR sigS nonce : Key) :
    Inert c.services (dispatch P env remote c (.authenticate pk sigR sigS nonce)) := by
  cases hv : P.vkValid pk <;> cases hs : P.verifyStrict pk (toBytes nonce) (sigR ++ sigS) <;>
    simp only [dispatch, handleAuthenticate, hv, hs] <;> exact ⟨rfl, rfl, rfl, rfl⟩

/-- Announcing a peer fills the DHT only, whoever asks for it. -/
theorem inert_storePeerInfo (c : Conn) (peerId ed25519Pk x25519Pk : Key) (addr : NodeAddr)
    (displayName : String) (sigR sigS : Key) :
    Inert c.services
      (handleStorePeerInfo P env c peerId ed25519Pk x25519Pk addr displayName sigR sigS) := by
  unfold handleStorePeerInfo
  split
  · exact inert_refused
  · split
    · exact inert_refused
    · split
      · exact inert_refused
      · exact ⟨rfl, rfl, rfl, rfl⟩

/-- Without an identity every kind of request is inert. -/
theorem inert_dispatch (h : c.session.clientPk = none) (req : ClientRequest) :
    Inert c.services (dispatch P env remote c req) := by
  have hauth : c.session.isAuthenticated = false := by
    unfold ClientSession.isAuthenticated
    rw [h]
    rfl
  cases req
  case authenticate pk sigR sigS nonce => exact inert_authenticate env remote c pk sigR sigS nonce
  case storePeerInfo => exact inert_storePeerInfo env c _ _ _ _ _ _ _
  -- the public requests of the DHT are answered to anyone
  case findNode targetId =>
    refine ⟨rfl, rfl, rfl, ?_⟩
    simp only [dispatch, handleFindNode]
    split <;> rfl
  case findPeerInfo peerId =>
    refine ⟨rfl, rfl, rfl, ?_⟩
    simp only [dispatch, handleFindPeerInfo]
    split <;> rfl
  case storeDhtRecord => exact ⟨rfl, rfl, rfl, rfl⟩
  case heartbeat => exact ⟨rfl, rfl, rfl, rfl⟩
  case storeCommunityPeer => exact ⟨rfl, rfl, rfl, rfl⟩
  case findCommunityPeers => exact ⟨rfl, rfl, rfl, rfl⟩
  all_goals
    simp only [dispatch, hauth, h, Bool.not_false, Bool.false_and, if_true]
    exact inert_refused

/-- A request that proves no key does not change a session without an identity. -/
theorem session_of_unproven (hs : s.clientPk = none)
    (hr : r.request.provenKey P = none) : sessionStep P s r = s := by
  unfold sessionStep Request.handle
  cases hreq : r.request with
  | authenticate pk sigR sigS nonce =>
    rw [hreq, ClientRequest.provenKey] at hr
    rw [dispatch_authenticate]
    split
    · next hok =>
      rw [if_pos hok] at hr
      cases hr
    · rfl
  | joinCommunity cert cid pw =>
    have hauth : s.isAuthenticated = false := by
      unfold ClientSession.isAuthenticated
      rw [hs]
      rfl
    simp only [dispatch, hauth, Bool.not_false, if_true]
  | _ => exact dispatch_session (by simp) (by simp)

theorem sessionAfter_of_unproven {reqs : List Request}
    (h : ∀ r ∈ reqs, r.request.provenKey P = none) : sessionAfter P reqs = ClientSession.fresh := by
  have halong : Along (sessionStep P) (fun _ r => r.request.provenKey P = none)
      ClientSession.fresh reqs := along_of_forall fun _ r hr => h r hr
  refine halong.invariant (I := fun s => s = ClientSession.fresh) ?_ rfl
  rintro s r rfl hr
  exact session_of_unproven rfl hr

/-- On a connection that proves no key, every request is inert, in whatever state the other
connections bring the store and the services, and no push is relayed to it. -/
theorem unauthenticated_inert {reqs : List Request} (h : ∀ r ∈ reqs, r.request.provenKey P = none) :
    (∀ before r after, reqs = before ++ r :: after →
      Inert r.services (r.handle P (sessionAfter P before))) ∧
    ∀ before, before <+: reqs → ∀ payload, (sessionAfter P before).shouldSend payload = false := by
  constructor
  · rintro before r after rfl
    have hbefore : sessionAfter P before = ClientSession.fresh :=
      sessionAfter_of_unproven fun r hr => h r (List.mem_append_left _ hr)
    rw [hbefore]
    exact inert_dispatch (c := ⟨ClientSession.fresh, r.services⟩) r.env r.remote rfl r.request
  · rintro before ⟨after, rfl⟩ ⟨filter, push⟩
    have hbefore : sessionAfter P before = ClientSession.fresh :=
      sessionAfter_of_unproven fun r hr => h r (List.mem_append_left _ hr)
    rw [hbefore]
    cases filter <;> rfl

open Sample in
/-- A client signs another nonce than the one it sends, and then asks for what it likes. -/
theorem unauthenticated_inert_sample :
    let reqs := [request (.authenticate 6 0 0 77), request (.joinCommunity cert none none),
      request (.getMessages 21 7 0)]
    (∀ before r after, reqs = before ++ r :: after →
      Inert r.services (r.handle (prims [] []) (sessionAfter (prims [] []) before))) ∧
    ∀ before, before <+: reqs → ∀ payload,
      (sessionAfter (prims [] []) before).shouldSend payload = false :=
  unauthenticated_inert (by decide +kernel)

/-! ## Sessions with several identities -/

section

variable (P)

/-- A `JoinCommunity` request for a community, made in a session and not refused. -/
def Request.Joins (r : Request) (s : ClientSession) (cpk : Key) : Prop :=
  (∃ cert communityId password, r.request = .joinCommunity cert communityId password ∧
    cert.communityPk = cpk) ∧ (r.handle P s).2.isError = false

/-- A `SendMessage` request that stores an entry in a community, with the key as its author. -/
def Request.StoresAs (r : Request) (s : ClientSession) (cpk k : Key) : Prop :=
  ∃ channelId nonce ciphertext seq entry,
    r.request = .sendMessage cpk channelId nonce ciphertext ∧
    (r.handle P s).2 = .messageAck seq ∧
    (r.handle P s).1.services.store.entryAt cpk channelId seq = some entry ∧
    entry.authorId = hexText k

/-- One of the requests joined the community while the session had the identity `k`. -/
def JoinedAs (reqs : List Request) (cpk k : Key) : Prop :=
  ∃ before r after, reqs = before ++ r :: after ∧ r.Joins P (sessionAfter P before) cpk ∧
    (sessionAfter P before).clientPk = some k

/-- Every stored message has an author that joined its community in the session. -/
def Attributed (reqs : List Request) : Prop :=
  ∀ before r after, reqs = before ++ r :: after → ∀ cpk k,
    r.StoresAs P (sessionAfter P before) cpk k → JoinedAs P before cpk k

/-- Before every `SendMessage` for a joined community, some join of it was made under the key that
was proven last before the message. -/
def JoinsMatch (reqs : List Request) : Prop :=
  ∀ before r after, reqs = before ++ r :: after → ∀ cpk channelId nonce ciphertext,
    r.request = .sendMessage cpk channelId nonce ciphertext →
    (sessionAfter P before).isAuthenticated = true →
    cpk ∈ (sessionAfter P before).joinedCommunities →
    ∃ earlier j later, before = earlier ++ j :: later ∧ j.Joins P (sessionAfter P earlier) cpk ∧
      lastKey P earlier = lastKey P before

end

theorem NodeStore.entryAt_appendMessage_self (st : NodeStore) (cpk : Key) (ch : Ulid)
    (nonce : Nonce) (ct : Bytes) (mid author : String) (ts : Int) :
    (st.appendMessage cpk ch nonce ct mid author ts).entryAt cpk ch (st.nextSeq cpk ch) =
      some ⟨st.nextSeq cpk ch, nonce, ct, mid, author, ts, false⟩ := by
  unfold NodeStore.entryAt NodeStore.appendMessage
  dsimp only
  rw [OrdMap.get_insert, if_pos rfl]
  rfl

/-- A `SendMessage` that passes the checks is stored under the key of the session. -/
theorem handle_sendMessage {channelId : Ulid}
    (hreq : r.request = .sendMessage cpk channelId nonce ciphertext) (hk : s.clientPk = some k)
    (hjoined : cpk ∈ s.joinedCommunities) :
    (r.handle P s).2 = .messageAck (r.services.store.nextSeq cpk channelId) ∧
      (r.handle P s).1.services.store = r.services.store.appendMessage cpk channelId nonce
        ciphertext (ulidText (r.env.ulid 0)) (hexText k) (timestampMillis r.env.now) := by
  have hcontains : s.joinedCommunities.contains cpk = true := List.contains_iff_mem.mpr hjoined
  unfold Request.handle
  rw [hreq]
  simp only [dispatch, ClientSession.isAuthenticated, hk, hcontains, handleSendMessage]
  exact ⟨rfl, rfl⟩

/-- A `SendMessage` stores its message exactly if the session is authenticated as the author and
has joined the community. -/
theorem storesAs_iff {channelId : Ulid}
    (hreq : r.request = .sendMessage cpk channelId nonce ciphertext) :
    r.StoresAs P s cpk k ↔ s.clientPk = some k ∧ cpk ∈ s.joinedCommunities := by
  constructor
  · rintro ⟨ch, n, ct, seq, entry, hreq', hack, hentry, hauthor⟩
    have hjoined : cpk ∈ s.joinedCommunities := by
      refine joined_of_not_error (P := P) (r := r) ?_ (by rw [hack]; rfl)
      rw [hreq]
      exact rfl
    rw [hreq] at hreq'
    cases hreq'
    cases hk : s.clientPk with
    | none =>
      unfold Request.handle at hack
      rw [hreq] at hack
      simp only [dispatch, ClientSession.isAuthenticated, hk] at hack
      cases hack
    | some k' =>
      obtain ⟨hseq, hstore⟩ := handle_sendMessage hreq hk hjoined
      rw [hack] at hseq
      cases hseq
      rw [hstore, NodeStore.entryAt_appendMessage_self] at hentry
      cases hentry
      exact ⟨congrArg some (hexText_injective hauthor), hjoined⟩
  · rintro ⟨hk, hjoined⟩
    obtain ⟨hseq, hstore⟩ := handle_sendMessage (P := P) hreq hk hjoined
    have hentry := NodeStore.entryAt_appendMessage_self r.services.store cpk channelId nonce
      ciphertext (ulidText (r.env.ulid 0)) (hexText k) (timestampMillis r.env.now)
    rw [← hstore] at hentry
    exact ⟨channelId, nonce, ciphertext, _, _, hreq, hseq, hentry, rfl⟩

/-- A message is attributed to an identity that joined its community if and only if the joins match
the keys under which the messages are sent. -/
theorem attributed_iff (reqs : List Request) : Attributed P reqs ↔ JoinsMatch P reqs := by
  constructor
  · intro h before r after hsplit cpk channelId nonce ciphertext hreq hauth hjoined
    obtain ⟨k, hk⟩ := Option.isSome_iff_exists.mp hauth
    obtain ⟨earlier, j, later, hbefore, hjoins, hkey⟩ :=
      h before r after hsplit cpk k ((storesAs_iff hreq).mpr ⟨hk, hjoined⟩)
    refine ⟨earlier, j, later, hbefore, hjoins, ?_⟩
    rw [← clientPk_sessionAfter, ← clientPk_sessionAfter, hkey, hk]
  · intro h before r after hsplit cpk k hstores
    have ⟨channelId, nonce, ciphertext, _, _, hreq, _⟩ := hstores
    obtain ⟨hk, hjoined⟩ := (storesAs_iff hreq).mp hstores
    have hauth : (sessionAfter P before).isAuthenticated = true := by
      unfold ClientSession.isAuthenticated
      rw [hk]
      rfl
    obtain ⟨earlier, j, later, hbefore, hjoins, hkeys⟩ :=
      h before r after hsplit cpk channelId nonce ciphertext hreq hauth hjoined
    refine ⟨earlier, j, later, hbefore, hjoins, ?_⟩
    rw [clientPk_sessionAfter, hkeys, ← clientPk_sessionAfter, hk]

namespace Sample

/-- A client joins as the user of the key 6 and goes on as the user of the key 9. -/
def renamed : List Request := joinRequests ++ [request (connectRequest (prims [] []) 8 78)]

end Sample

open Sample in
/-- The message of the second user is stored in a community that only the first one joined. -/
theorem message_of_another_identity :
    ¬ Attributed (prims [] []) (renamed ++ [request (.sendMessage 21 7 0 [1])]) := by
  intro h
  have hsession : (sessionAfter (prims [] []) renamed).clientPk = some 9 ∧
      21 ∈ (sessionAfter (prims [] []) renamed).joinedCommunities := by decide +kernel
  obtain ⟨before, r, after, hsplit, ⟨⟨cert, cid, pw, hjoin, -⟩, -⟩, hkey⟩ :=
    h renamed _ [] rfl 21 9 ((storesAs_iff rfl).mpr hsession)
  -- the only join is the second request, before which the session belongs to the first user
  match before, hsplit with
  | [], hsplit =>
    cases (List.cons.inj hsplit).1
    cases hjoin
  | [a], hsplit =>
    cases (List.cons.inj hsplit).1
    have hfirst : (sessionAfter (prims [] [])
        [request (connectRequest (prims [] []) 5 77)]).clientPk = some 6 := by decide +kernel
    rw [hfirst] at hkey
    cases hkey
  | [a, b], hsplit =>
    cases (List.cons.inj (List.cons.inj (List.cons.inj hsplit).2).2).1
    cases hjoin
  | a :: b :: c :: before, hsplit =>
    have hnil : [] = before ++ r :: after :=
      (List.cons.inj (List.cons.inj (List.cons.inj hsplit).2).2).2
    simp at hnil

end BitCord

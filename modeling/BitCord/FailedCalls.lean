import BitCord.Invite

/-!
# Calls that fail after they wrote

`community_join` reads the fingerprint in the invite after it stored the community and published its
own record, and `community_update_manifest` asks for the fingerprint of a new seed node after it
stored and published the new manifest. Both then return an error for what is done
(`failed_calls_leave_traces`, `failed_calls_traceless_iff`).
-/

namespace BitCord

open Lib AppState

variable {s : AppState} {e : RpcError} {p : UpdateManifestParams}

/-! ## Traces -/

/-- The tables that the two calls write. -/
structure CommunityTables where
  communities : Dict String SignedManifest
  members : Dict String (Dict String MembershipRecord)
  hostingPasswords : Dict String String
  seedFingerprints : Dict String Key

def Tables.communityTables (t : Tables) : CommunityTables :=
  ⟨t.communities, t.members, t.hostingPasswords, t.seedFingerprints⟩

def NetworkCommand.isPublish : NetworkCommand → Bool
  | .publish _ _ => true
  | _ => false

def AppState.publications (s : AppState) : List NetworkCommand :=
  s.commands.filter NetworkCommand.isPublish

/-- The tables and their files are unchanged and nothing was published. -/
structure Traceless (s s' : AppState) : Prop where
  memory : s'.toTables.communityTables = s.toTables.communityTables
  files : s'.files.communityTables = s.files.communityTables
  published : s'.publications = s.publications

theorem Traceless.refl (s : AppState) : Traceless s s := ⟨rfl, rfl, rfl⟩

theorem Traceless.lookup {s' : AppState} (h : Traceless s s') (c : String) :
    s'.communities.lookup c = s.communities.lookup c :=
  congrArg (AList.lookup c) (congrArg CommunityTables.communities h.memory)

/-- If the call returns an error then it leaves no trace. A call that panics returns nothing. -/
def FailsTraceless (s : AppState) (result : RpcResult) : Prop :=
  ∀ e, result.2 = .error e → e ≠ panicked → Traceless s result.1

variable (msg : String)

theorem invalidParams_ne_panicked : invalidParams msg ≠ panicked :=
  fun h => absurd (show (-32602 : Int) = 0 from congrArg RpcError.code h) (by decide)

section

variable (P : Prims)

/-! ## Joining -/

/-- The text is empty or a fingerprint, or reading it panics. -/
def FingerprintReadable (h : String) : Prop :=
  h = "" ∨ h.utf8ByteSize = 64 ∧ (parseFingerprintHex h).isSome = true ∨
    parseHexPanics 64 h = true

/-- The fingerprint of an invite that passes the other checks can be read. -/
def JoinFits (s : AppState) (p : JoinCommunityParams) : Prop :=
  ∀ invite ulid, decodedInvite P p.invite = some invite → InviteChecked P s invite ulid →
    FingerprintReadable invite.certFingerprintHex

/-! ## Updating -/

/-- The parameters pass the checks that `community_update_manifest` makes before it writes. -/
structure UpdatePasses (s : AppState) (p : UpdateManifestParams) (old : SignedManifest) : Prop where
  refusal : s.updateRefusal p = none
  known : s.communities.lookup p.communityId = some old
  admin : s.isManifestAdmin P old.manifest = true

/-- The first seed node is another one than before. -/
def UpdateManifestParams.ChangesSeed (p : UpdateManifestParams) (old : SignedManifest) : Prop :=
  (p.seedNodes.getD old.manifest.seedNodes).headD "" ≠ "" ∧
    (p.seedNodes.getD old.manifest.seedNodes).headD "" ≠ old.manifest.seedNodes.headD ""

/-- A seed node that changes comes with a fingerprint that is not zero, or reading it panics. -/
def UpdateFits (s : AppState) (p : UpdateManifestParams) : Prop :=
  ∀ old, UpdatePasses P s p old → p.ChangesSeed old →
    (p.seedFingerprintHex.bind parseFingerprintHex).getD 0 ≠ 0 ∨
      p.seedFingerprintHex.any (parseHexPanics 64) = true

variable {P} {env : Env} {s : AppState}

theorem inviteFingerprint_cases (invite : InvitePayload) :
    (FingerprintReadable invite.certFingerprintHex ∧
        ∀ e, inviteFingerprint invite = .error e → e = panicked) ∨
      (¬ FingerprintReadable invite.certFingerprintHex ∧
        ∃ msg, inviteFingerprint invite = .error (invalidParams msg)) := by
  unfold inviteFingerprint FingerprintReadable
  generalize invite.certFingerprintHex = h
  cases hpanics : parseHexPanics 64 h with
  | true => exact .inl ⟨.inr (.inr rfl), fun e he => by cases he; rfl⟩
  | false =>
    by_cases hsize : h.utf8ByteSize = 64
    · have hne : h ≠ "" := by
        rintro rfl
        exact absurd hsize (by decide)
      cases hparsed : parseFingerprintHex h with
      | none =>
        refine .inr ⟨by simp [hne], ?_⟩
        simp only [Bool.false_eq_true, if_false, hsize, if_true]
        exact ⟨_, rfl⟩
      | some fp =>
        refine .inl ⟨.inr (.inl ⟨hsize, rfl⟩), fun e he => ?_⟩
        simp only [Bool.false_eq_true, if_false, hsize, if_true] at he
        cases he
    · by_cases hempty : h = ""
      · refine .inl ⟨.inl hempty, fun e he => ?_⟩
        simp only [Bool.false_eq_true, if_false, hempty, if_true] at he
        cases he
      · refine .inr ⟨by simp [hempty, hsize], ?_⟩
        simp only [Bool.false_eq_true, if_false, hsize, hempty]
        exact ⟨_, rfl⟩

/-- The community of an invite that passes the checks is stored before the fingerprint is read. -/
theorem joinInvite_of_unreadable {invite : InvitePayload} {ulid : Ulid}
    (h : InviteChecked P s invite ulid) (he : inviteFingerprint invite = .error e)
    (password : Option String) :
    s.joinInvite P env invite password =
      (s.storeInvited P env ⟨ulid⟩ invite.key invite password, .error e) := by
  unfold joinInvite
  rw [if_neg h.name, h.communityId]
  dsimp only
  rw [h.refusal, he]
  rfl

theorem communityJoin_traceless_iff {p : JoinCommunityParams} :
    FailsTraceless s (s.communityJoin P env p) ↔ JoinFits P s p := by
  constructor
  · intro h invite ulid hdecoded hchecked
    rcases inviteFingerprint_cases invite with ⟨hreadable, -⟩ | ⟨-, msg, hmsg⟩
    · exact hreadable
    · -- the community was not in the table, and is stored
      rw [communityJoin_eq hdecoded, joinInvite_of_unreadable hchecked hmsg] at h
      have hsame := (h _ rfl (invalidParams_ne_panicked msg)).lookup (CommunityId.mk ulid).text
      dsimp only at hsame
      rw [communities_storeInvited, AList.lookup_insert,
        AList.lookup_eq_none.mpr (not_mem_of_inviteRefusal hchecked.refusal)] at hsame
      cases hsame
  · intro h e he hne
    rcases communityJoin_cases (P := P) env s p with ⟨e', heq⟩ | ⟨invite, hdecoded, heq⟩
    · rw [heq]
      exact .refl s
    · rw [heq] at he ⊢
      rcases joinInvite_cases (P := P) env s invite p.hostingPassword with
        ⟨e', heq⟩ | ⟨ulid, stored, hchecked, -, ⟨e', hfp, heq⟩ | ⟨fp, t, r, -, -, heq⟩⟩
      · rw [heq]
        exact .refl s
      · rw [heq] at he
        cases he
        rcases inviteFingerprint_cases invite with ⟨-, hpanics⟩ | ⟨hnot, -⟩
        · exact absurd (hpanics e hfp) hne
        · exact absurd (h invite ulid hdecoded hchecked) hnot
      · rw [heq] at he
        cases he

/-- Without a fingerprint for a new seed node the new manifest is stored and the call fails. -/
theorem communityUpdateManifest_of_passes {old : SignedManifest} (h : UpdatePasses P s p old)
    (hseed : p.ChangesSeed old) (hfp : (p.seedFingerprintHex.bind parseFingerprintHex).getD 0 = 0) :
    ∃ s' new msg, s.communityUpdateManifest P p =
        (s', .error (fingerprintError p.seedFingerprintHex msg)) ∧
      s'.communities.lookup p.communityId = some new ∧
      new.manifest.version = old.manifest.version + 1 := by
  unfold communityUpdateManifest
  rw [h.refusal, h.known]
  dsimp only
  rw [h.admin, Bool.not_true, if_neg Bool.false_ne_true]
  rw [if_pos hfp]
  split
  · exact ⟨_, _, _, rfl, AList.lookup_insert _, rfl⟩
  · next hkept => exact absurd hseed hkept

theorem communityUpdateManifest_error (h : (s.communityUpdateManifest P p).2 = .error e) :
    (s.communityUpdateManifest P p).1 = s ∨
      ∃ old msg, UpdatePasses P s p old ∧ p.ChangesSeed old ∧
        (p.seedFingerprintHex.bind parseFingerprintHex).getD 0 = 0 ∧
        e = fingerprintError p.seedFingerprintHex msg := by
  unfold communityUpdateManifest at h ⊢
  split at h
  · exact .inl rfl
  · exact .inl rfl
  · next old hrefusal hknown =>
    split at h
    · next hadmin =>
      rw [if_pos hadmin]
      exact .inl rfl
    · next hadmin =>
      dsimp only at h
      split at h
      · next hseed =>
        split at h
        · next hfp =>
          cases h
          exact .inr ⟨old, _, ⟨hrefusal, hknown, by simpa using hadmin⟩, hseed, hfp, rfl⟩
        · cases h
      · cases h

theorem communityUpdateManifest_traceless_iff :
    FailsTraceless s (s.communityUpdateManifest P p) ↔ UpdateFits P s p := by
  constructor
  · intro h old hpasses hseed
    by_contra hnot
    obtain ⟨hfp, hreadable⟩ := not_or.mp hnot
    obtain ⟨s', new, msg, heq, hnew, hversion⟩ :=
      communityUpdateManifest_of_passes hpasses hseed (not_not.mp hfp)
    rw [heq] at h
    have hne : fingerprintError p.seedFingerprintHex msg ≠ panicked := by
      unfold fingerprintError
      rw [if_neg hreadable]
      exact invalidParams_ne_panicked msg
    -- the stored manifest has a new version
    have hsame := (h _ rfl hne).lookup p.communityId
    dsimp only at hsame
    rw [hnew, hpasses.known] at hsame
    cases hsame
    simp at hversion
  · intro h e he hne
    rcases communityUpdateManifest_error he with hsame | ⟨old, msg, hpasses, hseed, hfp, rfl⟩
    · rw [hsame]
      exact .refl s
    · rcases h old hpasses hseed with hgiven | hpanics
      · exact absurd hfp hgiven
      · exact absurd (if_pos hpanics) hne

variable (P env s) in
/-- A call of the two that returns an error leaves the tables and the network as they were, exactly
if an invite that passes the other checks has a fingerprint that can be read, and if an update that
passes the other checks brings the fingerprint of a new seed node. -/
theorem failed_calls_traceless_iff (join : JoinCommunityParams) (update : UpdateManifestParams) :
    (FailsTraceless s (s.communityJoin P env join) ↔ JoinFits P s join) ∧
      (FailsTraceless s (s.communityUpdateManifest P update) ↔ UpdateFits P s update) :=
  ⟨communityJoin_traceless_iff, communityUpdateManifest_traceless_iff⟩

end

/-! ## Evaluations -/

namespace Sample

def cutInvite : InvitePayload := { signedInvite with certFingerprintHex := "00" }

/-- A new seed node without a fingerprint. -/
def unpinnedUpdate : UpdateManifestParams :=
  ⟨createdId, none, none, some ["127.0.0.1:9042"], none⟩

def errorOf? {ε α : Type} : Except ε α → Option ε
  | .error e => some e
  | .ok _ => none

theorem not_failsTraceless {result : RpcResult}
    (herror : errorOf? result.2 = some (invalidParams msg))
    (hpublished : result.1.publications.length ≠ s.publications.length) :
    ¬ FailsTraceless s result := by
  intro h
  refine hpublished (congrArg List.length (h _ ?_ (invalidParams_ne_panicked msg)).published)
  cases hresult : result.2 with
  | error e =>
    rw [hresult] at herror
    rw [Option.some.inj herror]
  | ok reply =>
    rw [hresult] at herror
    cases herror

end Sample

open Sample in
/-- A join with a bad fingerprint fails and leaves the community in the table, and an update
without one fails and leaves the new manifest there; both were published. -/
theorem failed_calls_leave_traces :
    ¬ FailsTraceless (app 1) ((app 1).communityJoin (invitePrims cutInvite) env joinParams) ∧
      ¬ FailsTraceless creatorApp
        (creatorApp.communityUpdateManifest (prims [] []) unpinnedUpdate) := by
  constructor
  · exact not_failsTraceless
      "invalid invite: cert_fingerprint_hex must be exactly 64 hex characters"
      (by decide +kernel) (by decide +kernel)
  · exact not_failsTraceless ("seed_fingerprint_hex is required when changing seed_nodes " ++
      "(64-char hex SHA-256 of the new seed node's TLS certificate)") (by decide +kernel)
      (by decide +kernel)

end BitCord

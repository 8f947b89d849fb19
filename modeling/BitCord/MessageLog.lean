import BitCord.Model

/-!
# The in-memory message log

Every channel has a list of entries in order of arrival; reactions are kept per message and
emoji. `append` numbers an entry by its position, `appendEntry` keeps the number it comes with.
-/

namespace BitCord

open Lib

structure MessageLog where
  channels : Dict String (List LogEntry)
  reactions : Dict String (Dict String (List String))

variable (log : MessageLog) (mid emoji user mid' emoji' : String)

namespace MessageLog

def empty : MessageLog := ⟨∅, ∅⟩

def entries (log : MessageLog) (channelId : String) : List LogEntry :=
  (log.channels.lookup channelId).getD []

/-- `MessageLog::append`: add an entry and give it the next position as its number. -/
def append (log : MessageLog) (channelId messageId authorId : String) (timestampMs : Int)
    (nonce : Nonce) (ciphertext : Bytes) : MessageLog :=
  let entry : LogEntry :=
    { seq := UInt64.ofNat (log.entries channelId).length, nonce, ciphertext, messageId, authorId,
      timestampMs, deleted := false }
  { log with channels := log.channels.insert channelId (log.entries channelId ++ [entry]) }

/-- `MessageLog::append_entry`: add an entry with the number it already has. -/
def appendEntry (log : MessageLog) (channelId : String) (entry : LogEntry) : MessageLog :=
  { log with channels := log.channels.insert channelId (log.entries channelId ++ [entry]) }

/-- `MessageLog::len`. -/
def len (log : MessageLog) (channelId : String) : UInt64 :=
  UInt64.ofNat (log.entries channelId).length

/-- `MessageLog::get_since`: the entries from position `sinceSeq` on. -/
def getSince (log : MessageLog) (channelId : String) (sinceSeq : UInt64) : List LogEntry :=
  (log.entries channelId).drop sinceSeq.toNat

/-- `MessageLog::get_entry`: the first entry with this message id. -/
def getEntry (log : MessageLog) (channelId messageId : String) : Option LogEntry :=
  (log.entries channelId).find? fun e => decide (e.messageId = messageId)

def updateEntry (log : MessageLog) (channelId messageId : String) (f : LogEntry → LogEntry) :
    MessageLog :=
  { log with
    channels := log.channels.adjust channelId
      (updateFirst (fun e => decide (e.messageId = messageId)) f) }

/-- `MessageLog::edit`. -/
def edit (log : MessageLog) (channelId messageId : String) (nonce : Nonce) (ciphertext : Bytes) :
    MessageLog :=
  log.updateEntry channelId messageId fun e => { e with nonce, ciphertext }

/-- `MessageLog::tombstone`. -/
def tombstone (log : MessageLog) (channelId messageId : String) : MessageLog :=
  log.updateEntry channelId messageId fun e => { e with deleted := true }

/-- The users who reacted to a message with an emoji, in the order in which they did. -/
def reactors (log : MessageLog) (messageId emoji : String) : List String :=
  ((((log.reactions.lookup messageId).getD ∅).lookup emoji)).getD []

/-- `MessageLog::react`. -/
def react (log : MessageLog) (messageId emoji userId : String) : MessageLog :=
  { log with
    reactions := log.reactions.upsert messageId ∅ fun byEmoji =>
      Dict.upsert emoji [] (fun users => if userId ∈ users then users else users ++ [userId])
        byEmoji }

/-- What `MessageLog::react` returns: whether the reaction is new. -/
def reactAnswer (log : MessageLog) (messageId emoji userId : String) : Bool :=
  if userId ∈ log.reactors messageId emoji then false else true

/-- `MessageLog::unreact`: an emoji that loses its last user is dropped. -/
def unreact (log : MessageLog) (messageId emoji userId : String) : MessageLog :=
  { log with
    reactions := log.reactions.adjust messageId fun byEmoji =>
      match byEmoji.lookup emoji with
      | none => byEmoji
      | some users =>
        let rest := users.filter fun u => decide (u ≠ userId)
        if rest.isEmpty then byEmoji.erase emoji else byEmoji.insert emoji rest }

/-- What `MessageLog::unreact` returns: whether the list of users became shorter. -/
def unreactAnswer (log : MessageLog) (messageId emoji userId : String) : Bool :=
  match log.reactions.lookup messageId with
  | none => false
  | some byEmoji =>
    match byEmoji.lookup emoji with
    | none => false
    | some users => decide ((users.filter fun u => decide (u ≠ userId)).length < users.length)

/-- `MessageLog::get_reactions`: the reactions of a message in the order of their emojis. -/
def getReactions (log : MessageLog) (messageId : String) : List (String × List String) :=
  match log.reactions.lookup messageId with
  | none => []
  | some byEmoji =>
    (byEmoji.entries.map fun e => (e.1, e.2)).mergeSort fun a b => decide (a.1 ≤ b.1)

/-! ## Entries after each operation -/

@[simp] theorem entries_append (ch mid author : String) (ts : Int) (nonce : Nonce) (ct : Bytes)
    (ch' : String) :
    (log.append ch mid author ts nonce ct).entries ch' =
      if ch' = ch then
        log.entries ch ++
          [⟨UInt64.ofNat (log.entries ch).length, nonce, ct, mid, author, ts, false⟩]
      else log.entries ch' := by
  simp only [append, entries, Dict.lookup_insert_eq]
  split <;> rfl

@[simp] theorem entries_appendEntry (ch : String) (e : LogEntry) (ch' : String) :
    (log.appendEntry ch e).entries ch' =
      if ch' = ch then log.entries ch ++ [e] else log.entries ch' := by
  simp only [appendEntry, entries, Dict.lookup_insert_eq]
  split <;> rfl

@[simp] theorem entries_updateEntry (ch mid : String) (f : LogEntry → LogEntry) (ch' : String) :
    (log.updateEntry ch mid f).entries ch' =
      if ch' = ch then updateFirst (fun e => decide (e.messageId = mid)) f (log.entries ch)
      else log.entries ch' := by
  simp only [updateEntry, entries, Dict.lookup_adjust]
  split
  · cases log.channels.lookup ch <;> rfl
  · rfl

/-! ## Lookups after each operation -/

theorem getEntry_append (ch mid author : String) (ts : Int) (nonce : Nonce) (ct : Bytes)
    (id : String) :
    (log.append ch mid author ts nonce ct).getEntry ch id =
      (log.getEntry ch id).or
        (if id = mid then
          some ⟨UInt64.ofNat (log.entries ch).length, nonce, ct, mid, author, ts, false⟩
        else none) := by
  unfold getEntry
  rw [entries_append, if_pos rfl, List.find?_append]
  by_cases h : id = mid
  · simp [h]
  · simp [h, Ne.symm h]

theorem getEntry_updateEntry {f : LogEntry → LogEntry} (hf : ∀ e, (f e).messageId = e.messageId)
    (log : MessageLog) (ch mid id : String) :
    (log.updateEntry ch mid f).getEntry ch id =
      if id = mid then (log.getEntry ch id).map f else log.getEntry ch id := by
  have hsame : ∀ e, decide ((f e).messageId = id) = decide (e.messageId = id) := by
    intro e
    rw [hf]
  unfold getEntry
  rw [entries_updateEntry, if_pos rfl]
  split
  · next h =>
    subst h
    exact find?_updateFirst hsame _
  · next h =>
    refine find?_updateFirst_of_disjoint hsame (fun e he => ?_) _
    rw [of_decide_eq_true he]
    exact decide_eq_false (Ne.symm h)

theorem getEntry_edit (ch mid : String) (nonce : Nonce) (ct : Bytes) :
    (log.edit ch mid nonce ct).getEntry ch mid =
      (log.getEntry ch mid).map fun e => { e with nonce, ciphertext := ct } :=
  (getEntry_updateEntry (f := fun e => { e with nonce, ciphertext := ct }) (fun _ => rfl) log ch
    mid mid).trans (if_pos rfl)

theorem reactors_react :
    (log.react mid emoji user).reactors mid' emoji' =
      if mid' = mid ∧ emoji' = emoji then
        if user ∈ log.reactors mid emoji then log.reactors mid emoji
        else log.reactors mid emoji ++ [user]
      else log.reactors mid' emoji' := by
  unfold reactors react
  rw [Dict.lookup_upsert]
  by_cases hm : mid' = mid
  · subst hm
    rw [if_pos (rfl : mid' = mid'), Option.getD_some, Dict.lookup_upsert]
    by_cases he : emoji' = emoji
    · subst he
      have hboth : mid' = mid' ∧ emoji' = emoji' := ⟨rfl, rfl⟩
      rw [if_pos (rfl : emoji' = emoji'), if_pos hboth, Option.getD_some]
    · have hne : ¬ (mid' = mid' ∧ emoji' = emoji) := fun h => he h.2
      rw [if_neg he, if_neg hne]
  · have hne : ¬ (mid' = mid ∧ emoji' = emoji) := fun h => hm h.1
    rw [if_neg hm, if_neg hne]

theorem reactors_unreact :
    (log.unreact mid emoji user).reactors mid' emoji' =
      if mid' = mid ∧ emoji' = emoji then
        (log.reactors mid emoji).filter fun u => decide (u ≠ user)
      else log.reactors mid' emoji' := by
  unfold reactors unreact
  rw [Dict.lookup_adjust]
  by_cases hm : mid' = mid
  · subst hm
    rw [if_pos (rfl : mid' = mid')]
    cases hcell : log.reactions.lookup mid' with
    | none => simp
    | some byEmoji =>
      rw [Option.map_some, Option.getD_some, Option.getD_some]
      cases husers : byEmoji.lookup emoji with
      | none =>
        by_cases he : emoji' = emoji
        · subst he
          simp [husers]
        · simp [he]
      | some users =>
        dsimp only
        by_cases he : emoji' = emoji
        · subst he
          rw [if_pos (And.intro (rfl : mid' = mid') (rfl : emoji' = emoji')), Option.getD_some]
          split
          · next hempty =>
            rw [AList.lookup_erase, List.isEmpty_iff.mp hempty]
            rfl
          · rw [AList.lookup_insert, Option.getD_some]
        · have hne : ¬ (mid' = mid' ∧ emoji' = emoji) := fun h => he h.2
          rw [if_neg hne]
          split
          · rw [AList.lookup_erase_ne he]
          · rw [AList.lookup_insert_ne he]
  · have hne : ¬ (mid' = mid ∧ emoji' = emoji) := fun h => hm h.1
    rw [if_neg hm, if_neg hne]

end MessageLog

end BitCord

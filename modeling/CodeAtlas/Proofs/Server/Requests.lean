import CodeAtlas.Proofs.Server.Calls
import Mathlib.Data.List.Induction
import Mathlib.Data.List.Nodup

/-!
# How requests end

Along every run of a session the numbers of the requests grow, every request
waits or has ended, and none has ended twice. A request that a reply ends gets
what the first reply to it that came while it waited brings.
-/

namespace CodeAtlas.Server

/-- Whether only a reply of the server can bring it. -/
def Outcome.fromServer : Outcome → Bool
  | .answer _ | .failure (.response _ _) => true
  | .failure _ => false

theorem fromServer_unsentError (reason : Option String) :
    (Outcome.failure (Session.unsentError reason)).fromServer = false := by
  cases reason <;> rfl

theorem fromServer_linkError (error : Option FrameError) :
    (Outcome.failure ((error.map Session.linkError).getD .outputClosed)).fromServer = false := by
  cases error with
  | none => rfl
  | some e => cases e <;> rfl

/-- A record is a reply to a request: it has the request's number and no method. -/
structure RepliesTo (fields : List (String × Value)) (id : Nat) : Prop where
  method : fields.lookup "method" = none
  number : ∃ v, fields.lookup "id" = some v ∧ Incoming.requestNumber? v = some id

/-- What a reply brings: its result, or the code and the message of its error. -/
inductive Brings (fields : List (String × Value)) : Outcome → Prop
  | result (h : fields.lookup "error" = none ∨ fields.lookup "error" = some .null) :
    Brings fields (.answer ((fields.lookup "result").getD .null))
  | error {e : List (String × Value)} (h : fields.lookup "error" = some (.record e)) :
    Brings fields (.failure (.response ((e.lookup "code").getD (.integer 0))
      ((e.lookup "message").getD (.text ""))))

theorem outcomeOf?_eq_some_iff {fields : List (String × Value)} {o : Outcome} :
    Incoming.outcomeOf? fields = some o ↔ Brings fields o := by
  constructor
  · intro h
    unfold Incoming.outcomeOf? at h
    split at h
    next herr => exact (Option.some.inj h) ▸ .result (.inl herr)
    next herr => exact (Option.some.inj h) ▸ .result (.inr herr)
    next herr => exact (Option.some.inj h) ▸ .error herr
    next => cases h
  · rintro (h | h)
    · rcases h with h | h <;> simp [Incoming.outcomeOf?, h]
    · simp [Incoming.outcomeOf?, h]

/-- A record is a reply to some request or to none: it has no method, and no list or record where
its number should be. -/
structure IsReply (fields : List (String × Value)) : Prop where
  method : fields.lookup "method" = none
  noList : ∀ items, fields.lookup "id" ≠ some (.list items)
  noRecord : ∀ r, fields.lookup "id" ≠ some (.record r)

theorem RepliesTo.isReply {fields : List (String × Value)} {id : Nat} (h : RepliesTo fields id) :
    IsReply fields := by
  obtain ⟨hmethod, v, hv, hid⟩ := h
  refine ⟨hmethod, ?_, ?_⟩
  all_goals
    intro w hw
    obtain rfl := Option.some.inj (hv.symm.trans hw)
    cases hid

theorem ofMessage_of_isReply {fields : List (String × Value)} (h : IsReply fields) :
    Incoming.ofMessage (.record fields) =
      .reply ((fields.lookup "id").bind Incoming.requestNumber?) (Incoming.outcomeOf? fields) := by
  rw [Incoming.ofMessage, h.method]
  cases hid : fields.lookup "id" with
  | none => rfl
  | some v =>
    cases v with
    | list items => exact absurd hid (h.noList items)
    | record r => exact absurd hid (h.noRecord r)
    | null | boolean | integer | real | text => rfl

theorem ofMessage_of_repliesTo {fields : List (String × Value)} {id : Nat}
    (h : RepliesTo fields id) :
    Incoming.ofMessage (.record fields) = .reply (some id) (Incoming.outcomeOf? fields) := by
  obtain ⟨v, hv, hid⟩ := h.number
  rw [ofMessage_of_isReply h.isReply, hv, Option.bind_some, hid]

theorem repliesTo_of_ofMessage {v : Value} {id : Nat} {o : Option Outcome}
    (h : Incoming.ofMessage v = .reply (some id) o) :
    ∃ fields, v = .record fields ∧ RepliesTo fields id ∧ Incoming.outcomeOf? fields = o := by
  unfold Incoming.ofMessage at h
  split at h
  next fields =>
    refine ⟨fields, rfl, ?_⟩
    split at h <;> try cases h
    next hmethod _ _ =>
      simp only [Incoming.reply.injEq] at h
      obtain ⟨w, hw, hnumber⟩ := Option.bind_eq_some_iff.mp h.1
      exact ⟨⟨hmethod, w, hw, hnumber⟩, h.2⟩
  next => cases h

namespace Channel

theorem isWaiting_iff {c : Channel} {id : Nat} :
    c.isWaiting id = true ↔ id ∈ c.waiting.map Waiting.id := by
  simp [isWaiting]

/-- From `c` to `c'` the requests in `done` ended, and nothing else happened to any. -/
structure Ends (c c' : Channel) (done : List (Nat × Outcome)) : Prop where
  lastId : c'.lastId = c.lastId
  ended : c'.ended = c.ended ++ done
  waiting : (c'.waiting.map Waiting.id ++ done.map Prod.fst).Perm (c.waiting.map Waiting.id)

/-- Every request that has been numbered waits or has ended, and only once. -/
def Balanced (c : Channel) : Prop :=
  (c.waiting.map Waiting.id ++ c.ended.map Prod.fst).Perm (List.range' 1 c.lastId)

namespace Balanced

variable {c c' : Channel}

theorem nodup (h : c.Balanced) : (c.waiting.map Waiting.id ++ c.ended.map Prod.fst).Nodup :=
  h.nodup_iff.mpr List.nodup_range'

theorem nodup_waiting (h : c.Balanced) : (c.waiting.map Waiting.id).Nodup :=
  (List.nodup_append.mp h.nodup).1

theorem nodup_ended (h : c.Balanced) : (c.ended.map Prod.fst).Nodup :=
  (List.nodup_append.mp h.nodup).2.1

theorem isWaiting_eq_false (h : c.Balanced) {id : Nat} (hid : id ∈ c.ended.map Prod.fst) :
    c.isWaiting id = false := by
  rw [← Bool.not_eq_true, isWaiting_iff]
  intro hw
  exact (List.nodup_append.mp h.nodup).2.2 id hw id hid rfl

theorem issue (h : c.Balanced) (method : String) (deadline : Int) :
    (c.issue method deadline).Balanced := by
  unfold Balanced Channel.issue
  simp only [List.map_append, List.map_cons, List.map_nil, List.range'_1_concat]
  rw [List.append_assoc, Nat.add_comm 1]
  calc c.waiting.map Waiting.id ++ ([c.lastId + 1] ++ c.ended.map Prod.fst)
    _ |>.Perm (c.waiting.map Waiting.id ++ (c.ended.map Prod.fst ++ [c.lastId + 1])) :=
      List.perm_append_comm.append_left _
    _ |>.Perm (List.range' 1 c.lastId ++ [c.lastId + 1]) := by
      rw [← List.append_assoc]
      exact h.append_right _

theorem ends (h : c.Balanced) {done : List (Nat × Outcome)} (he : c.Ends c' done) :
    c'.Balanced := by
  unfold Balanced
  rw [he.lastId, he.ended, List.map_append]
  calc c'.waiting.map Waiting.id ++ (c.ended.map Prod.fst ++ done.map Prod.fst)
    _ |>.Perm (c'.waiting.map Waiting.id ++ (done.map Prod.fst ++ c.ended.map Prod.fst)) :=
      List.perm_append_comm.append_left _
    _ |>.Perm (c.waiting.map Waiting.id ++ c.ended.map Prod.fst) := by
      rw [← List.append_assoc]
      exact he.waiting.append_right _
    _ |>.Perm (List.range' 1 c.lastId) := h

end Balanced

theorem ends_abort (c : Channel) (e : LinkError) :
    c.Ends (c.abort e) (c.waiting.map fun w => (w.id, .failure e)) := by
  refine ⟨rfl, rfl, ?_⟩
  simp [abort, Function.comp_def]

theorem ends_expire (c : Channel) (now : Int) :
    c.Ends (c.expire now) ((c.waiting.filter fun w => w.deadline ≤ now).map fun w =>
      (w.id, .failure (.timedOut w.method w.id))) := by
  refine ⟨rfl, rfl, ?_⟩
  have hsplit := (List.filter_append_perm (fun w : Waiting => decide (now < w.deadline))
    c.waiting).map Waiting.id
  simpa [expire, Function.comp_def, ← decide_not] using hsplit

theorem ends_finish {c : Channel} {id : Nat} (h : (c.waiting.map Waiting.id).Nodup)
    (hw : c.isWaiting id = true) (o : Outcome) : c.Ends (c.finish id o) [(id, o)] := by
  rw [finish, if_pos hw]
  refine ⟨rfl, rfl, ?_⟩
  have hkeep : (c.waiting.filter fun w => w.id != id).map Waiting.id =
      (c.waiting.map Waiting.id).erase id := by
    rw [h.erase_eq_filter, List.filter_map]
    rfl
  rw [hkeep]
  exact List.perm_append_comm.trans (List.perm_cons_erase (isWaiting_iff.mp hw)).symm

theorem mem_ended_of_outcome? {c : Channel} {id : Nat} {o : Outcome} (h : c.outcome? id = some o) :
    (id, o) ∈ c.ended := by
  obtain ⟨l₁, l₂, hsplit, -⟩ := List.lookup_eq_some_iff.mp h
  simp [hsplit]

theorem exists_outcome?_iff {c : Channel} {id : Nat} :
    (∃ o, c.outcome? id = some o) ↔ id ∈ c.ended.map Prod.fst := by
  rw [← Option.isSome_iff_exists, outcome?, List.lookup_isSome_iff]
  simp

/-- Once the deadline of a request that waits has come, the request has ended. -/
theorem exists_outcome?_expire {c : Channel} {id : Nat} (h : c.isWaiting id = true) (now : Int) :
    ∃ o, (c.expire ((c.deadline? id).getD now)).outcome? id = some o := by
  obtain ⟨w, hfind⟩ : ∃ w, c.waiting.find? (fun w => w.id == id) = some w :=
    Option.isSome_iff_exists.mp (by rwa [List.find?_isSome, ← List.any_eq_true])
  have hw : w ∈ c.waiting := List.mem_of_find?_eq_some hfind
  obtain rfl : w.id = id := by simpa using List.find?_some hfind
  rw [exists_outcome?_iff, deadline?, hfind]
  simp only [expire, List.map_append, List.mem_append, List.mem_map, List.mem_filter]
  exact .inr ⟨_, ⟨w, ⟨hw, by simp⟩, rfl⟩, rfl⟩

/-- A request waits or has ended. -/
def Tracks (c : Channel) (id : Nat) : Prop :=
  c.isWaiting id = true ∨ ∃ o, c.outcome? id = some o

theorem tracks_iff {c : Channel} {id : Nat} :
    c.Tracks id ↔ id ∈ c.waiting.map Waiting.id ∨ id ∈ c.ended.map Prod.fst := by
  rw [Tracks, isWaiting_iff, exists_outcome?_iff]

theorem Balanced.tracks {c : Channel} (h : c.Balanced) {id : Nat}
    (hid : id ∈ List.range' 1 c.lastId) : c.Tracks id :=
  tracks_iff.mpr (List.mem_append.mp (h.mem_iff.mpr hid))

theorem tracks_issue (c : Channel) (method : String) (deadline : Int) :
    (c.issue method deadline).Tracks (c.lastId + 1) := by
  simp [tracks_iff, issue]

theorem Tracks.finish {c : Channel} {id : Nat} (h : c.Tracks id) (other : Nat) (o : Outcome) :
    (c.finish other o).Tracks id := by
  unfold Channel.finish
  split
  · rw [tracks_iff] at h ⊢
    by_cases hid : id = other
    · subst hid
      simp
    · rcases h with h | h
      · obtain ⟨w, hw, rfl⟩ := List.mem_map.mp h
        exact .inl (List.mem_map.mpr ⟨w, by simp [hw, hid], rfl⟩)
      · right
        rw [List.map_append]
        exact List.mem_append_left _ h
  · exact h

theorem Tracks.exists_outcome?_finish {c : Channel} {id : Nat} (h : c.Tracks id) (o : Outcome) :
    ∃ p, (c.finish id o).outcome? id = some p := by
  unfold Channel.finish
  split
  · rw [exists_outcome?_iff]
    simp
  next hno => exact h.resolve_left hno

theorem Tracks.abort {c : Channel} {id : Nat} (h : c.Tracks id) (e : LinkError) :
    (c.abort e).Tracks id := by
  rw [tracks_iff] at h ⊢
  right
  rw [Channel.abort, List.map_append, List.map_map, List.mem_append]
  exact h.symm

/-- Some requests end, and none of them by a reply. -/
def EndsAlone (c c' : Channel) : Prop :=
  ∃ done, c.Ends c' done ∧ ∀ d ∈ done, d.2.fromServer = false

theorem EndsAlone.of_eq {c c' : Channel} (hlast : c'.lastId = c.lastId)
    (hwaiting : c'.waiting = c.waiting) (hended : c'.ended = c.ended) : c.EndsAlone c' :=
  ⟨[], ⟨hlast, by simp [hended], by simp [hwaiting]⟩, by simp⟩

theorem endsAlone_finish {c : Channel} (h : (c.waiting.map Waiting.id).Nodup) (id : Nat)
    {o : Outcome} (ho : o.fromServer = false) : c.EndsAlone (c.finish id o) := by
  by_cases hw : c.isWaiting id = true
  · exact ⟨_, ends_finish h hw o, by simpa using ho⟩
  · rw [finish, if_neg hw]
    exact .of_eq rfl rfl rfl

theorem endsAlone_expire (c : Channel) (now : Int) : c.EndsAlone (c.expire now) := by
  refine ⟨_, ends_expire c now, fun d hd => ?_⟩
  obtain ⟨w, -, rfl⟩ := List.mem_map.mp hd
  rfl

theorem endsAlone_abort (c : Channel) {e : LinkError}
    (he : (Outcome.failure e).fromServer = false) : c.EndsAlone (c.abort e) := by
  refine ⟨_, ends_abort c e, fun d hd => ?_⟩
  obtain ⟨w, -, rfl⟩ := List.mem_map.mp hd
  exact he

theorem EndsAlone.setPhase {c c' : Channel} (h : c.EndsAlone c') (p : Phase) :
    c.EndsAlone { c' with phase := p } := by
  obtain ⟨done, ⟨hlast, hended, hwaiting⟩, hd⟩ := h
  exact ⟨done, ⟨hlast, hended, hwaiting⟩, hd⟩

end Channel

namespace Session

/-- A reply to a request that waits arrives at a reader that runs. -/
structure Meets (s : Session) (fields : List (String × Value)) (id : Nat) : Prop where
  repliesTo : RepliesTo fields id
  waiting : s.channel.isWaiting id = true
  running : s.reader = .running

/-- The number that a move gives out. -/
def numbered (s : Session) : Move → List Nat
  | .register _ _ => [s.channel.lastId + 1]
  | _ => []

/-- A move numbers a request, or is a reply and ends the request that it replies to, or ends
requests without one. -/
theorem channel_move_cases {s : Session} (hs : s.channel.Balanced) (m : Move) :
    (∃ method deadline, m = .register method deadline ∧
      (s.move m).channel = s.channel.issue method deadline) ∨
    (∃ fields id o, m = .message (.record fields) ∧ s.Meets fields id ∧ Brings fields o ∧
      (s.move m).channel = s.channel.finish id o) ∨
    (s.numbered m = [] ∧ s.channel.EndsAlone (s.move m).channel) := by
  have hsame : s.channel.EndsAlone s.channel := .of_eq rfl rfl rfl
  cases m with
  | register method deadline => exact .inl ⟨method, deadline, rfl, rfl⟩
  | message v =>
    right
    by_cases hr : s.reader = .running
    · have hmove : s.move (.message v) = s.take v := if_pos hr
      rcases take_cases s v with ⟨e, he, -, hc⟩ | ⟨id, o, hin, hw, -, hc⟩ | ⟨-, hc⟩
      · refine .inr ⟨rfl, ?_⟩
        rw [hmove, hc]
        refine (Channel.endsAlone_abort s.channel ?_).setPhase .stopped
        rcases he with rfl | ⟨reason, rfl⟩
        · rfl
        · exact fromServer_unsentError reason
      · obtain ⟨fields, rfl, hreplies, ho⟩ := repliesTo_of_ofMessage hin
        exact .inl ⟨fields, id, o, rfl, ⟨hreplies, hw, hr⟩, outcomeOf?_eq_some_iff.mp ho,
          hmove ▸ hc⟩
      · exact .inr ⟨rfl, by rw [hmove, hc]; exact hsame⟩
    · exact .inr ⟨rfl, by rw [move, if_neg hr]; exact hsame⟩
  | outside | spawnFails | close => exact .inr (.inr ⟨rfl, .of_eq rfl rfl rfl⟩)
  | unsent id reason =>
    exact .inr (.inr ⟨rfl, Channel.endsAlone_finish hs.nodup_waiting id
      (fromServer_unsentError reason)⟩)
  | timeout method id =>
    exact .inr (.inr ⟨rfl, Channel.endsAlone_finish hs.nodup_waiting id rfl⟩)
  | time now => exact .inr (.inr ⟨rfl, Channel.endsAlone_expire s.channel now⟩)
  | streamEnds error =>
    refine .inr (.inr ⟨rfl, ?_⟩)
    simp only [move]
    split
    · exact (Channel.endsAlone_abort s.channel (fromServer_linkError error)).setPhase .stopped
    · exact hsame
  | drop =>
    refine .inr (.inr ⟨rfl, ?_⟩)
    simp only [move]
    split
    · exact Channel.endsAlone_abort s.channel rfl
    · exact hsame
  | begin | spawn | wake | complete =>
    refine .inr (.inr ⟨rfl, ?_⟩)
    simp only [move, wake]
    split <;> exact .of_eq rfl rfl rfl

theorem issues_or_ends_move {s : Session} (hs : s.channel.Balanced) (m : Move) :
    (∃ method deadline, m = .register method deadline ∧
      (s.move m).channel = s.channel.issue method deadline) ∨
    (s.numbered m = [] ∧ ∃ done, s.channel.Ends (s.move m).channel done) := by
  rcases channel_move_cases hs m with h | ⟨fields, id, o, rfl, hmeets, -, hc⟩ | ⟨hn, done, he, -⟩
  · exact .inl h
  · refine .inr ⟨rfl, [(id, o)], ?_⟩
    rw [hc]
    exact Channel.ends_finish hs.nodup_waiting hmeets.waiting o
  · exact .inr ⟨hn, done, he⟩

theorem balanced_move {s : Session} (hs : s.channel.Balanced) (m : Move) :
    (s.move m).channel.Balanced := by
  rcases issues_or_ends_move hs m with ⟨method, deadline, -, hc⟩ | ⟨-, done, he⟩
  · rw [hc]
    exact hs.issue method deadline
  · exact hs.ends he

/-- What has ended stays as it ended. -/
theorem ended_prefix_move {s : Session} (hs : s.channel.Balanced) (m : Move) :
    s.channel.ended <+: (s.move m).channel.ended := by
  rcases issues_or_ends_move hs m with ⟨method, deadline, -, hc⟩ | ⟨-, done, he⟩
  · rw [hc]
    exact List.prefix_refl _
  · rw [he.ended]
    exact List.prefix_append _ _

theorem lastId_move {s : Session} (hs : s.channel.Balanced) (m : Move) :
    List.range' 1 (s.move m).channel.lastId =
      List.range' 1 s.channel.lastId ++ s.numbered m := by
  rcases issues_or_ends_move hs m with ⟨method, deadline, rfl, hc⟩ | ⟨hn, done, he⟩
  · rw [hc, Channel.issue, List.range'_1_concat, Nat.add_comm 1]
    rfl
  · rw [hn, he.lastId, List.append_nil]

/-- A reply that meets its request ends it, with what it brings if it can be made sense of. -/
theorem Meets.move {s : Session} {fields : List (String × Value)} {id : Nat}
    (h : s.Meets fields id) :
    ∃ o, (id, o) ∈ (s.move (.message (.record fields))).channel.ended ∧
      ∀ p, Brings fields p → o = p := by
  have hin := ofMessage_of_repliesTo h.repliesTo
  rw [Session.move, if_pos h.running, take, handle, hin]
  dsimp only
  rw [if_pos h.waiting]
  cases ho : Incoming.outcomeOf? fields with
  | some o =>
    refine ⟨o, ?_, fun p hp => ?_⟩
    · simp [Channel.finish, h.waiting]
    · rw [← outcomeOf?_eq_some_iff, ho] at hp
      exact Option.some.inj hp
  | none =>
    refine ⟨.failure .outputClosed, ?_, fun p hp => ?_⟩
    · obtain ⟨w, hw, rfl⟩ := List.mem_map.mp (Channel.isWaiting_iff.mp h.waiting)
      simp only [endReader, Channel.abort, List.mem_append, List.mem_map]
      exact .inr ⟨w, hw, rfl⟩
    · rw [← outcomeOf?_eq_some_iff, ho] at hp
      cases hp

/-- The numbers that are given out along a run. -/
def issued (s : Session) : List Move → List Nat
  | [] => []
  | m :: rest => s.numbered m ++ (s.move m).issued rest

theorem balanced_run {s : Session} (hs : s.channel.Balanced) (moves : List Move) :
    (s.run moves).channel.Balanced := by
  induction moves generalizing s with
  | nil => exact hs
  | cons m rest ih => exact ih (balanced_move hs m)

theorem ended_prefix_run {s : Session} (hs : s.channel.Balanced) (moves : List Move) :
    s.channel.ended <+: (s.run moves).channel.ended := by
  induction moves generalizing s with
  | nil => exact List.prefix_refl _
  | cons m rest ih => exact (ended_prefix_move hs m).trans (ih (balanced_move hs m))

theorem lastId_run {s : Session} (hs : s.channel.Balanced) (moves : List Move) :
    List.range' 1 (s.run moves).channel.lastId =
      List.range' 1 s.channel.lastId ++ s.issued moves := by
  induction moves generalizing s with
  | nil => simp [issued]
  | cons m rest ih =>
    rw [run_cons, ih (balanced_move hs m), lastId_move hs m, issued, List.append_assoc]

/-- A request that a reply has met no longer waits. -/
theorem Meets.not_isWaiting {s : Session} (hs : s.channel.Balanced)
    {fields : List (String × Value)} {id : Nat} (h : s.Meets fields id) (later : List Move) :
    (s.run (.message (.record fields) :: later)).channel.isWaiting id = false := by
  obtain ⟨o, ho, -⟩ := h.move
  have hmem := (ended_prefix_run (balanced_move hs _) later).subset ho
  exact (balanced_run hs _).isWaiting_eq_false (List.mem_map_of_mem hmem)

/-- Along a run a reply that brings `o` meets the request, and no reply has met it before. -/
def FirstMeets (s : Session) (moves : List Move) (id : Nat) (o : Outcome) : Prop :=
  ∃ before after fields, moves = before ++ .message (.record fields) :: after ∧
    (s.run before).Meets fields id ∧ Brings fields o ∧
    ∀ earlier later fields', before = earlier ++ .message (.record fields') :: later →
      ¬(s.run earlier).Meets fields' id

theorem FirstMeets.append {s : Session} {moves : List Move} {id : Nat} {o : Outcome}
    (h : s.FirstMeets moves id o) (more : List Move) : s.FirstMeets (moves ++ more) id o := by
  obtain ⟨before, after, fields, rfl, hfirst⟩ := h
  exact ⟨before, after ++ more, fields, by simp, hfirst⟩

/-- What a server said was said by the first reply that met the request. -/
theorem firstMeets_of_mem_ended {s : Session} (hs : s.channel.Balanced)
    (hnew : s.channel.ended = []) {moves : List Move} {id : Nat} {o : Outcome}
    (ho : o.fromServer = true) (hmem : (id, o) ∈ (s.run moves).channel.ended) :
    s.FirstMeets moves id o := by
  induction moves using List.reverseRecOn with
  | nil =>
    rw [run_nil, hnew] at hmem
    cases hmem
  | append_singleton moves m ih =>
    have hbal := balanced_run hs moves
    rw [run_append, run_cons, run_nil] at hmem
    rcases channel_move_cases hbal m with ⟨method, deadline, -, hc⟩ |
      ⟨fields, id', o', rfl, hmeets, hbrings, hc⟩ | ⟨-, done, he, hd⟩
    · rw [hc] at hmem
      exact (ih hmem).append [m]
    · rw [hc, (Channel.ends_finish hbal.nodup_waiting hmeets.waiting o').ended,
        List.mem_append, List.mem_singleton] at hmem
      rcases hmem with hmem | heq
      · exact (ih hmem).append _
      · obtain ⟨rfl, rfl⟩ := Prod.mk.inj heq
        refine ⟨moves, [], fields, rfl, hmeets, hbrings, ?_⟩
        rintro earlier later fields' rfl hmet
        have hgone := hmet.not_isWaiting (balanced_run hs earlier) later
        rw [← run_append, hmeets.waiting] at hgone
        cases hgone
    · rw [he.ended, List.mem_append] at hmem
      rcases hmem with hmem | hmem
      · exact (ih hmem).append [m]
      · rw [hd _ hmem] at ho
        cases ho

theorem tracks_pause {s : Session} {id : Nat} (h : s.channel.Tracks id) :
    s.pause.channel.Tracks id := by
  have hwake : (s.note .pause).wake.channel.Tracks id := by
    unfold wake
    split <;> exact h
  refine pump_induction (·.channel.Tracks id) ?_ ?_ _ hwake
  · intro t error _ ht
    exact ht.abort _
  · intro t rest v _ ht
    rcases take_cases { t with inbox := rest } v with ⟨e, -, -, hc⟩ | ⟨_, o, -, -, -, hc⟩ | ⟨-, hc⟩
    · rw [hc]
      exact ht.abort e
    · rw [hc]
      exact ht.finish _ o
    · rwa [hc]

/-- Whoever waits for a request gets the outcome that it ended with. -/
theorem outcome?_await {s : Session} {id : Nat} (h : s.channel.Tracks id) :
    (s.await id).1.channel.outcome? id = some (s.await id).2 := by
  have hpause := tracks_pause h
  unfold await
  dsimp only
  split
  next ho => exact ho
  next hnone =>
    have hwaits : s.pause.channel.isWaiting id = true :=
      hpause.resolve_right fun ⟨o, ho⟩ => by rw [hnone] at ho; cases ho
    obtain ⟨o, ho⟩ := Channel.exists_outcome?_expire hwaits s.pause.clock
    simp only [advance, ho, Option.getD_some]

theorem mem_ended_await {s : Session} (hs : s.channel.Balanced) {id : Nat}
    (hid : id ∈ List.range' 1 s.channel.lastId) :
    (id, (s.await id).2) ∈ (s.await id).1.channel.ended :=
  Channel.mem_ended_of_outcome? (outcome?_await (hs.tracks hid))

/-- What holds of the requests of a new session after any run. -/
structure Orderly (s : Session) (moves : List Move) : Prop where
  increasing : (s.issued moves).Pairwise (· < ·)
  /-- What has been asked waits or has ended, and nothing else does. -/
  accounted : ∀ id, id ∈ s.issued moves ↔ (s.run moves).channel.isWaiting id = true ∨
    id ∈ (s.run moves).channel.ended.map Prod.fst
  once : ((s.run moves).channel.ended.map Prod.fst).Nodup
  removed : ∀ id ∈ (s.run moves).channel.ended.map Prod.fst,
    (s.run moves).channel.isWaiting id = false
  kept : ∀ before after, moves = before ++ after →
    (s.run before).channel.ended <+: (s.run moves).channel.ended
  /-- A server's word is that of the first reply to the request that came while it waited. -/
  fromFirst : ∀ id o, o.fromServer = true → (id, o) ∈ (s.run moves).channel.ended →
    s.FirstMeets moves id o
  /-- And the first reply that came while a request waited is what ended it. -/
  answered : ∀ before after fields id o, moves = before ++ .message (.record fields) :: after →
    (s.run before).Meets fields id → Brings fields o → (id, o) ∈ (s.run moves).channel.ended
  /-- A reply to no request that waits changes nothing, whatever its number is. -/
  ignored : ∀ fields, IsReply fields →
    (∀ id, RepliesTo fields id → (s.run moves).channel.isWaiting id = false) →
    (s.run moves).move (.message (.record fields)) = s.run moves
  /-- Whoever waits for a request gets what is written down for it. -/
  returned : ∀ id ∈ s.issued moves,
    (id, ((s.run moves).await id).2) ∈ ((s.run moves).await id).1.channel.ended

theorem move_message_of_not_isWaiting {s : Session} {fields : List (String × Value)}
    (h : IsReply fields) (hw : ∀ id, RepliesTo fields id → s.channel.isWaiting id = false) :
    s.move (.message (.record fields)) = s := by
  rw [move, take, handle, ofMessage_of_isReply h]
  cases hnumber : (fields.lookup "id").bind Incoming.requestNumber? with
  | none => exact ite_self s
  | some id =>
    dsimp only
    rw [hw id ⟨h.method, Option.bind_eq_some_iff.mp hnumber⟩]
    exact ite_self s

theorem IsNew.balanced {s : Session} (hs : s.IsNew) : s.channel.Balanced := by
  rw [hs.channel]
  exact .refl _

theorem IsNew.issued {s : Session} (hs : s.IsNew) (moves : List Move) :
    s.issued moves = List.range' 1 (s.run moves).channel.lastId := by
  rw [lastId_run hs.balanced, hs.channel]
  rfl

/-- Two requests are answered in the other order, and the first of them twice. -/
def crossedReplies : List Move :=
  let reply (id : Int) (result : String) : Move :=
    .message (.record [("id", .integer id), ("result", .text result)])
  [.begin, .spawn, .wake, .register "first" 10, .register "second" 10,
    reply 2 "two", reply 1 "one", reply 1 "again"]

end Session

end CodeAtlas.Server

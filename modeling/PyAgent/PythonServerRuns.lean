import PyAgent.PythonServer

/-!
# Runs of the Python provider agent

Streams and Dubbo connections take their turns in any order. What has been written to a
stream is the responses that the connection of its key has called its callbacks with,
and these are the responses to its own requests.
-/

namespace PyAgent.Python
set_option autoImplicit false

open Streaming

namespace Serving

/-- What `callback` writes. -/
def answer (made : (Nat × Nat) × Response) : Bytes :=
  writeInt made.2.id ++ (writeInt made.2.result.length ++ made.2.result)

abbrev caller (call : Request × Nat × Nat) : Nat := call.2.1

abbrev addressee (made : (Nat × Nat) × Response) : Nat := made.1.1

/-- A stream has made the requests it has read, all of them on the connection of its key. -/
structure StreamFetches (channels : ChannelKey → Option Channel) (i : Nat) (s : ActStream) :
    Prop where
  reads : ∀ stage, s.stage = some stage →
    streamDecoder.Steps .magicNumber s.arrived s.requests stage s.buffer
  idle : s.key = none → s.requests = []
  shared : ∀ key, s.key = some key → ∃ talk, channels key = some talk ∧
    ownedBy caller i talk.issued =
      s.requests.mapIdx fun j request => (makeDubboRequest request, (i, j))

def Keyed (streams : List ActStream) (i : Nat) (key : ChannelKey) : Prop :=
  ∃ s, streams[i]? = some s ∧ s.key = some key

/-- What the agent asks for, whatever the ids of the requests are and whatever the provider sends:
connections are opened for streams, and what they have written are requests of these. -/
structure Fetches (server : Serving) : Prop where
  streams : ∀ (i : Nat) s, server.streams[i]? = some s →
    StreamFetches server.dubboChannelMap i s
  owners : ∀ key talk, server.dubboChannelMap key = some talk → ∀ call ∈ talk.issued,
    Keyed server.streams (caller call) key
  opened : ∀ key talk, server.dubboChannelMap key = some talk →
    ∃ i : Nat, Keyed server.streams i key
  sent : ∀ key talk, server.dubboChannelMap key = some talk → Talk.Sent dubboProtocol talk

/-- What has been written to a stream are the responses its callbacks were called with. -/
structure Inv (server : Serving) : Prop where
  fetches : Fetches server
  talks : ∀ key talk, server.dubboChannelMap key = some talk → Talk.Reached dubboProtocol talk
  unwritten : ∀ (i : Nat) s, server.streams[i]? = some s → s.key = none → s.written = []
  written : ∀ (i : Nat) s key talk, server.streams[i]? = some s → s.key = some key →
    server.dubboChannelMap key = some talk →
    s.written = ((ownedBy addressee i talk.conn.called).map answer).flatten

theorem fetches_start : Fetches {} := ⟨by simp, by simp, by simp, by simp⟩

theorem inv_start : Inv {} := ⟨fetches_start, by simp, by simp, by simp⟩

section
variable {server server' : Serving} {channels channels' : ChannelKey → Option Channel} {i : Nat}
  {s s' : ActStream} {key : ChannelKey} {talk talk' : Channel}

/-- Only what its own connection carries for it matters to a stream. -/
theorem StreamFetches.of_channels (hs : StreamFetches channels i s)
    (h : ∀ key talk, s.key = some key → channels key = some talk → ∃ talk',
      channels' key = some talk' ∧ ownedBy caller i talk'.issued = ownedBy caller i talk.issued) :
    StreamFetches channels' i s := by
  refine ⟨hs.reads, hs.idle, ?_⟩
  intro key hkey
  obtain ⟨talk, htalk, hissued⟩ := hs.shared key hkey
  obtain ⟨talk', htalk', hissued'⟩ := h key talk hkey htalk
  exact ⟨talk', htalk', hissued'.trans hissued⟩

theorem getElem?_set_cases {streams : List ActStream} {i' : Nat} {s₀ : ActStream}
    (h : (streams.set i s')[i']? = some s₀) :
    i' = i ∧ s₀ = s' ∨ i' ≠ i ∧ streams[i']? = some s₀ := by
  by_cases hi : i' = i
  · subst hi
    obtain ⟨hlt, hget⟩ := List.getElem?_eq_some_iff.mp h
    rw [List.getElem_set_self] at hget
    exact Or.inl ⟨rfl, hget.symm⟩
  · rw [List.getElem?_set_ne (Ne.symm hi)] at h
    exact Or.inr ⟨hi, h⟩

theorem Keyed.set {streams : List ActStream} {i' : Nat} (h : Keyed streams i' key)
    (hs : streams[i]? = some s) (hkey : s.key = some key → s'.key = some key) :
    Keyed (streams.set i s') i' key := by
  obtain ⟨s₀, hs₀, hkey₀⟩ := h
  by_cases hi : i' = i
  · subst hi
    obtain rfl : s = s₀ := Option.some.inj (hs.symm.trans hs₀)
    exact ⟨s', List.getElem?_set_self (List.getElem?_eq_some_iff.mp hs).1, hkey hkey₀⟩
  · exact ⟨s₀, by rw [List.getElem?_set_ne (Ne.symm hi), hs₀], hkey₀⟩

/-- Where a call stands among those of its stream is where its request stands in it. -/
theorem Fetches.call_at (hm : Fetches server) (htalk : server.dubboChannelMap key = some talk)
    {t : Nat} {call : Request × Nat × Nat} (hcall : talk.issued[t]? = some call) :
    ∃ s request, server.streams[caller call]? = some s ∧ s.key = some key ∧
      s.requests[call.2.2]? = some request ∧ call.1 = makeDubboRequest request ∧
      rank caller (caller call) talk.issued t = call.2.2 := by
  obtain ⟨s, hs, hkey⟩ := hm.owners key talk htalk call (List.mem_of_getElem? hcall)
  obtain ⟨talk₀, htalk₀, hissued⟩ := (hm.streams _ s hs).shared key hkey
  obtain rfl : talk = talk₀ := Option.some.inj (htalk.symm.trans htalk₀)
  have hrank : (ownedBy caller (caller call) talk.issued)[rank caller (caller call)
      talk.issued t]? = some call := ownedBy_rank hcall rfl
  rw [hissued, List.getElem?_mapIdx, Option.map_eq_some_iff] at hrank
  obtain ⟨request, hrequest, heq⟩ := hrank
  have hindex : rank caller (caller call) talk.issued t = call.2.2 := congrArg (fun c => c.2.2) heq
  rw [hindex] at hrequest
  exact ⟨s, request, hs, hkey, hrequest, (congrArg Prod.fst heq).symm, hindex⟩

theorem Fetches.issued_inj (hm : Fetches server) (htalk : server.dubboChannelMap key = some talk)
    (t t' : Nat) (call call' : Request × Nat × Nat) (hcall : talk.issued[t]? = some call)
    (hcall' : talk.issued[t']? = some call') (heq : call.2 = call'.2) : t = t' := by
  obtain ⟨_, _, _, _, _, _, hrank⟩ := hm.call_at htalk hcall
  obtain ⟨_, _, _, _, _, _, hrank'⟩ := hm.call_at htalk hcall'
  have howner : caller call = caller call' := congrArg Prod.fst heq
  have hindex : call.2.2 = call'.2.2 := congrArg Prod.snd heq
  rw [howner, hindex, ← hrank'] at hrank
  exact rank_inj hcall hcall' howner rfl hrank

/-- A stream that has no key yet has no calls. -/
theorem Fetches.no_calls (hm : Fetches server) (hs : server.streams[i]? = some s)
    (hkey : s.key = none) (htalk : server.dubboChannelMap key = some talk) :
    ∀ call ∈ talk.issued, caller call ≠ i := by
  intro call hcall hi
  obtain ⟨s₀, hs₀, hkey₀⟩ := hm.owners key talk htalk call hcall
  rw [hi] at hs₀
  obtain rfl : s = s₀ := Option.some.inj (hs.symm.trans hs₀)
  cases hkey.symm.trans hkey₀

theorem Inv.talk_inv (hm : Inv server) (htalk : server.dubboChannelMap key = some talk) :
    Talk.Inv dubboProtocol talk :=
  Talk.inv_of_reached dubboProtocol_lawful (hm.talks key talk htalk)

/-! ### What the coroutine does with the connections -/

theorem openChannel_of_some (h : channels key = some talk) (key' : ChannelKey) :
    openChannel channels key' key = some talk := by
  unfold openChannel
  cases hkey' : channels key' with
  | some _ => exact h
  | none =>
    have hne : key ≠ key' := by
      rintro rfl
      cases hkey'.symm.trans h
    simp only [Function.update_of_ne hne, h]

theorem openChannel_cases {key' : ChannelKey} (h : openChannel channels key' key = some talk) :
    channels key = some talk ∨ key = key' ∧ talk = Talk.start _ _ _ _ := by
  unfold openChannel at h
  cases hkey' : channels key' with
  | some _ =>
    rw [hkey'] at h
    exact Or.inl h
  | none =>
    rw [hkey'] at h
    by_cases hkey : key = key'
    · subst hkey
      exact Or.inr ⟨rfl, Option.some.inj (h.symm.trans (Function.update_self _ _ _))⟩
    · exact Or.inl ((Function.update_of_ne hkey _ _).symm.trans h)

theorem exists_openChannel (channels : ChannelKey → Option Channel) (key : ChannelKey) :
    ∃ talk, openChannel channels key key = some talk := by
  unfold openChannel
  cases hkey : channels key with
  | some talk => exact ⟨talk, hkey⟩
  | none => exact ⟨_, Function.update_self _ _ _⟩

/-- The calls that are made on the connection of a key. -/
def callsAt (effect : Effect) (key : ChannelKey) (callback : Nat × Nat) :
    List (Request × Nat × Nat) :=
  (effect.requests.filter fun request => request.key = key).map fun request =>
    (makeDubboRequest request, callback)

/-- A connection has been given these calls, and nothing else. -/
structure Fetched (calls : List (Request × Nat × Nat)) (talk talk' : Channel) : Prop where
  issued : talk'.issued = talk.issued ++ calls
  called : talk'.conn.called = talk.conn.called
  replies : talk'.replies = talk.replies
  sent : Talk.Sent dubboProtocol talk → Talk.Sent dubboProtocol talk'

theorem Fetched.refl (talk : Channel) : Fetched [] talk talk :=
  ⟨(List.append_nil _).symm, rfl, rfl, id⟩

section
variable {callback : Nat × Nat} {effect : Effect}
  (h : perform channels callback effect = some channels')
include h

theorem perform_keeps (htalk : channels key = some talk) : ∃ talk', channels' key = some talk' ∧
    Fetched (callsAt effect key callback) talk talk' := by
  cases effect with
  | nothing =>
    obtain rfl := Option.some.inj h
    exact ⟨talk, htalk, .refl talk⟩
  | channel key' =>
    obtain rfl := Option.some.inj h
    exact ⟨talk, openChannel_of_some htalk key', .refl talk⟩
  | fetch request =>
    obtain ⟨talk₀, htalk₀, h⟩ := Option.bind_eq_some_iff.mp h
    obtain ⟨talk', hstep, h⟩ := Option.bind_eq_some_iff.mp h
    obtain rfl := Option.some.inj h
    by_cases hk : request.key = key
    · subst hk
      obtain rfl : talk = talk₀ := Option.some.inj (htalk.symm.trans htalk₀)
      have hgrows := Talk.step_grows hstep
      refine ⟨talk', Function.update_self _ _ _, ?_, Talk.step_called hstep (by simp),
        hgrows.replies.trans (List.append_nil _), fun hsent => hsent.step hstep⟩
      rw [hgrows.issued]
      simp [callsAt, Effect.requests, Talk.Event.calls]
    · refine ⟨talk, by rw [Function.update_of_ne (Ne.symm hk), htalk], ?_⟩
      rw [show callsAt (.fetch request) key callback = [] by simp [callsAt, Effect.requests, hk]]
      exact .refl talk

/-- A connection that is there has been there, or it has just been opened. -/
theorem perform_cases (htalk' : channels' key = some talk') :
    (∃ talk, channels key = some talk ∧ Fetched (callsAt effect key callback) talk talk') ∨
      effect = .channel key ∧ channels key = none ∧ talk' = Talk.start _ _ _ _ := by
  cases hold : channels key with
  | some talk =>
    obtain ⟨talk₁, htalk₁, hfetched⟩ := perform_keeps h hold
    obtain rfl : talk₁ = talk' := Option.some.inj (htalk₁.symm.trans htalk')
    exact Or.inl ⟨talk, rfl, hfetched⟩
  | none =>
    cases effect with
    | nothing =>
      obtain rfl := Option.some.inj h
      cases hold.symm.trans htalk'
    | channel key' =>
      obtain rfl := Option.some.inj h
      rcases openChannel_cases htalk' with hsome | ⟨rfl, rfl⟩
      · cases hold.symm.trans hsome
      · exact Or.inr ⟨rfl, rfl, rfl⟩
    | fetch request =>
      obtain ⟨talk₀, htalk₀, h⟩ := Option.bind_eq_some_iff.mp h
      obtain ⟨_, _, h⟩ := Option.bind_eq_some_iff.mp h
      obtain rfl := Option.some.inj h
      by_cases hk : key = request.key
      · subst hk
        cases hold.symm.trans htalk₀
      · rw [Function.update_of_ne hk] at htalk'
        cases hold.symm.trans htalk'

end

theorem callsAt_caller {effect : Effect} {callback : Nat × Nat} :
    ∀ call ∈ callsAt effect key callback, caller call = callback.1 := by
  intro call hcall
  obtain ⟨request, _, rfl⟩ := List.mem_map.mp hcall
  rfl

/-! ### A coroutine goes on -/

theorem StreamFetches.reads_next (hs : StreamFetches channels i s) {stage : Stage}
    (hstage : s.stage = some stage) (hle : stage.numBytes ≤ s.buffer.length) (stage' : Stage)
    (hnext : (s.advance stage).stage = some stage') :
    streamDecoder.Steps .magicNumber (s.advance stage).arrived (s.advance stage).requests stage'
      (s.advance stage).buffer :=
  (hs.reads stage hstage).trans (.single hle (took_iff.mpr ⟨hnext, rfl⟩))

section
variable {stage : Stage} (hstage : s.stage = some stage)
include hstage

theorem advance_key : (s.advance stage).key =
    match stage.effect (s.data stage) with
    | .channel key => some key
    | _ => s.key := by
  have hkey : s.key = stage.key := by rw [ActStream.key, hstage, Option.bind_some]
  rw [hkey]
  exact stage.next_bind_key (s.data stage)

theorem advance_keeps_key (hkey : s.key = some key) : (s.advance stage).key = some key := by
  rw [advance_key hstage]
  cases heffect : stage.effect (s.data stage) with
  | channel key' =>
    have hnone := Stage.key_of_channel heffect
    rw [ActStream.key, hstage, Option.bind_some, hnone] at hkey
    cases hkey
  | _ => exact hkey

/-- The requests that a coroutine makes are for the key of its stream. -/
theorem callsAt_of_key (hkey : (s.advance stage).key = some key) (callback : Nat × Nat) :
    callsAt (stage.effect (s.data stage)) key callback =
      (stage.effect (s.data stage)).requests.map fun request =>
        (makeDubboRequest request, callback) := by
  rw [callsAt, List.filter_eq_self.mpr]
  intro request hmem
  have heffect := Effect.mem_requests.mp hmem
  rw [advance_key hstage, heffect] at hkey
  have hsome : s.key = some request.key := by
    rw [ActStream.key, hstage, Option.bind_some, Stage.key_of_fetch heffect]
  exact decide_eq_true (Option.some.inj (hsome.symm.trans hkey))

variable (hm : Fetches server) (hs : server.streams[i]? = some s)
  (hle : stage.numBytes ≤ s.buffer.length)
  (hperform : perform server.dubboChannelMap (i, s.requests.length)
    (stage.effect (s.data stage)) = some channels')
include hm hs hperform

/-- The stream that goes on has the connection of its key, with all calls made so far. -/
theorem Fetches.shared_advance (hkey : (s.advance stage).key = some key) :
    ∃ talk', channels' key = some talk' ∧ ownedBy caller i talk'.issued =
      (s.advance stage).requests.mapIdx fun j request => (makeDubboRequest request, (i, j)) := by
  have hrequests : (s.advance stage).requests.mapIdx
      (fun j request => (makeDubboRequest request, (i, j))) =
        s.requests.mapIdx (fun j request => (makeDubboRequest request, (i, j))) ++
          callsAt (stage.effect (s.data stage)) key (i, s.requests.length) := by
    rw [callsAt_of_key hstage hkey]
    cases heffect : stage.effect (s.data stage) <;>
      simp [ActStream.advance, heffect, Effect.requests]
  have howned : ownedBy caller i
      (callsAt (stage.effect (s.data stage)) key (i, s.requests.length)) =
        callsAt (stage.effect (s.data stage)) key (i, s.requests.length) :=
    ownedBy_eq_self callsAt_caller
  cases hold : s.key with
  | some key₀ =>
    obtain rfl : key₀ = key :=
      Option.some.inj ((advance_keeps_key hstage hold).symm.trans hkey)
    obtain ⟨talk, htalk, hissued⟩ := (hm.streams i s hs).shared _ hold
    obtain ⟨talk', htalk', hfetched⟩ := perform_keeps hperform htalk
    exact ⟨talk', htalk', by rw [hfetched.issued, ownedBy_append, hissued, howned, hrequests]⟩
  | none =>
    -- the key has come just now, and the connection for it has no calls of this stream
    have hnone := (hm.streams i s hs).idle hold
    have heffect : stage.effect (s.data stage) = .channel key := by
      have hkey' := hkey
      rw [advance_key hstage] at hkey'
      cases heffect : stage.effect (s.data stage) with
      | channel key' =>
        rw [heffect] at hkey'
        rw [Option.some.inj hkey']
      | _ =>
        rw [heffect] at hkey'
        cases hold.symm.trans hkey'
    rw [heffect] at hperform
    obtain rfl := Option.some.inj hperform
    obtain ⟨talk', htalk'⟩ := exists_openChannel server.dubboChannelMap key
    refine ⟨talk', htalk', ?_⟩
    rw [hrequests, hnone, heffect]
    rcases openChannel_cases htalk' with htalk | ⟨_, rfl⟩
    · rw [ownedBy_eq_nil (hm.no_calls hs hold htalk)]
      rfl
    · rfl

include hle

theorem Fetches.resume : Fetches ⟨channels', server.streams.set i (s.advance stage)⟩ := by
  have hself : (server.streams.set i (s.advance stage))[i]? = some (s.advance stage) :=
    List.getElem?_set_self (List.getElem?_eq_some_iff.mp hs).1
  refine ⟨?_, ?_, ?_, ?_⟩
  · intro i' s₀ hget
    rcases getElem?_set_cases hget with ⟨rfl, rfl⟩ | ⟨hne, hget⟩
    · refine ⟨(hm.streams _ s hs).reads_next hstage hle, ?_, ?_⟩
      · intro hnone
        rw [advance_key hstage] at hnone
        cases heffect : stage.effect (s.data stage) with
        | nothing =>
          rw [heffect] at hnone
          simp [ActStream.advance, heffect, Effect.requests, (hm.streams _ s hs).idle hnone]
        | channel key =>
          rw [heffect] at hnone
          cases hnone
        | fetch request =>
          rw [heffect] at hnone
          rw [ActStream.key, hstage, Option.bind_some, Stage.key_of_fetch heffect] at hnone
          cases hnone
      · exact fun key hkey => hm.shared_advance hstage hs hperform hkey
    · apply (hm.streams i' s₀ hget).of_channels
      intro key talk _ htalk
      obtain ⟨talk', htalk', hfetched⟩ := perform_keeps hperform htalk
      refine ⟨talk', htalk', ?_⟩
      rw [hfetched.issued, ownedBy_append, ownedBy_eq_nil (l := callsAt _ _ _), List.append_nil]
      intro call hcall heq
      exact hne (heq.symm.trans (callsAt_caller call hcall))
  · intro key talk' htalk' call hcall
    rcases perform_cases hperform htalk' with ⟨talk, htalk, hfetched⟩ | ⟨_, _, rfl⟩
    · rw [hfetched.issued] at hcall
      rcases List.mem_append.mp hcall with hcall | hcall
      · exact (hm.owners key talk htalk call hcall).set hs (advance_keeps_key hstage)
      · obtain ⟨request, hmem, rfl⟩ := List.mem_map.mp hcall
        obtain ⟨hmem, hk⟩ := List.mem_filter.mp hmem
        have heffect := Effect.mem_requests.mp hmem
        refine ⟨s.advance stage, hself, ?_⟩
        rw [advance_key hstage, heffect, ActStream.key, hstage, Option.bind_some,
          ← of_decide_eq_true hk]
        exact Stage.key_of_fetch heffect
    · cases hcall
  · intro key talk' htalk'
    rcases perform_cases hperform htalk' with ⟨talk, htalk, _⟩ | ⟨heffect, _⟩
    · obtain ⟨i', hkeyed⟩ := hm.opened key talk htalk
      exact ⟨i', hkeyed.set hs (advance_keeps_key hstage)⟩
    · refine ⟨i, s.advance stage, hself, ?_⟩
      rw [advance_key hstage, heffect]
  · intro key talk' htalk'
    rcases perform_cases hperform htalk' with ⟨talk, htalk, hfetched⟩ | ⟨_, _, rfl⟩
    · exact hfetched.sent (hm.sent key talk htalk)
    · exact (Talk.inv_start dubboProtocol).sent

end

/-! ### A Dubbo connection goes on -/

/-- What is written to stream `i` when these callbacks are called. -/
def answers (made : List ((Nat × Nat) × Response)) (i : Nat) : Bytes :=
  ((ownedBy addressee i made).map answer).flatten

theorem answers_append (made made' : List ((Nat × Nat) × Response)) (i : Nat) :
    answers (made ++ made') i = answers made i ++ answers made' i := by
  simp [answers, ownedBy_append]

theorem callback_eq_some_iff {streams streams' : List ActStream}
    {made : (Nat × Nat) × Response} : callback streams made = some streams' ↔
      (addressee made < streams.length ∧ made.2.id < 4294967296 ∧
        made.2.result.length < 4294967296) ∧
      streams' = streams.mapIdx fun i s => s.write (answers [made] i) := by
  have hset : ∀ s, streams[made.1.1]? = some s → streams.set made.1.1 (s.write (answer made)) =
      streams.mapIdx fun i s => s.write (answers [made] i) := by
    intro s hs
    apply List.ext_getElem?
    intro i
    rw [List.getElem?_mapIdx]
    by_cases hi : made.1.1 = i
    · subst hi
      rw [List.getElem?_set_self (List.getElem?_eq_some_iff.mp hs).1, hs]
      simp [answers, ownedBy]
    · rw [List.getElem?_set_ne hi]
      cases streams[i]? <;> simp [answers, ownedBy, hi, ActStream.write]
  constructor
  · intro h
    obtain ⟨s, hs, h⟩ := Option.bind_eq_some_iff.mp h
    obtain ⟨body, hbody, h⟩ := Option.bind_eq_some_iff.mp h
    obtain rfl := Option.some.inj h
    obtain ⟨⟨hid, hlen⟩, rfl⟩ := encodeBody_eq_some_iff.mp hbody
    exact ⟨⟨(List.getElem?_eq_some_iff.mp hs).1, hid, hlen⟩, hset s hs⟩
  · rintro ⟨⟨hlt, hid, hlen⟩, rfl⟩
    have hs := List.getElem?_eq_getElem hlt
    have hbody : (makeActResponse made.2).encodeBody = some (answer made) :=
      encodeBody_eq_some_iff.mpr ⟨⟨hid, hlen⟩, rfl⟩
    rw [← hset _ hs, callback, show streams[made.1.1]? = _ from hs, Option.bind_eq_bind,
      Option.bind_some, hbody, Option.bind_eq_bind, Option.bind_some]

theorem foldlM_callback_iff {new : List ((Nat × Nat) × Response)}
    {streams streams' : List ActStream} : new.foldlM callback streams = some streams' ↔
      (∀ made ∈ new, addressee made < streams.length ∧ made.2.id < 4294967296 ∧
        made.2.result.length < 4294967296) ∧
      streams' = streams.mapIdx fun i s => s.write (answers new i) := by
  induction new generalizing streams with
  | nil =>
    have hsame : streams.mapIdx (fun i s => s.write (answers [] i)) = streams := by
      apply List.ext_getElem?
      intro i
      rw [List.getElem?_mapIdx]
      cases streams[i]? <;> simp [answers, ActStream.write]
    simp [hsame, eq_comm]
  | cons made new ih =>
    have hsplit : (streams.mapIdx fun i s => s.write (answers [made] i)).mapIdx
        (fun i s => s.write (answers new i)) =
          streams.mapIdx fun i s => s.write (answers (made :: new) i) := by
      rw [List.mapIdx_mapIdx]
      congr 1
      funext i s
      rw [show answers (made :: new) i = _ from answers_append [made] new i]
      simp [ActStream.write]
    rw [List.foldlM_cons, Option.bind_eq_bind, Option.bind_eq_some_iff, List.forall_mem_cons]
    constructor
    · rintro ⟨streams₁, hcallback, hrest⟩
      obtain ⟨hmade, rfl⟩ := callback_eq_some_iff.mp hcallback
      obtain ⟨hnew, rfl⟩ := ih.mp hrest
      rw [List.length_mapIdx] at hnew
      exact ⟨⟨hmade, hnew⟩, hsplit⟩
    · rintro ⟨⟨hmade, hnew⟩, rfl⟩
      refine ⟨_, callback_eq_some_iff.mpr ⟨hmade, rfl⟩, ih.mpr ⟨?_, hsplit.symm⟩⟩
      rw [List.length_mapIdx]
      exact hnew

/-- What a Dubbo connection does, for all streams. -/
theorem dubbo_eq_some_iff {e : Talk.Event Request Response (Nat × Nat)} :
    step server (.dubbo key e) = some server' ↔
      e.calls = [] ∧ ∃ talk talk' streams, server.dubboChannelMap key = some talk ∧
        talk.step dubboProtocol e = some talk' ∧
        (talk'.conn.called.drop talk.conn.called.length).foldlM callback server.streams =
          some streams ∧
        server' = ⟨Function.update server.dubboChannelMap key (some talk'), streams⟩ := by
  have hstep : e.calls = [] → step server (.dubbo key e) = (do
      let talk ← server.dubboChannelMap key
      let talk' ← talk.step dubboProtocol e
      let streams ← (talk'.conn.called.drop talk.conn.called.length).foldlM callback
        server.streams
      some ⟨Function.update server.dubboChannelMap key (some talk'), streams⟩) := by
    intro hcalls
    cases e <;> first | rfl | cases hcalls
  constructor
  · intro h
    have hcalls : e.calls = [] := by
      cases e <;> first | rfl | cases h
    rw [hstep hcalls] at h
    obtain ⟨talk, htalk, h⟩ := Option.bind_eq_some_iff.mp h
    obtain ⟨talk', htalk', h⟩ := Option.bind_eq_some_iff.mp h
    obtain ⟨streams, hstreams, h⟩ := Option.bind_eq_some_iff.mp h
    exact ⟨hcalls, talk, talk', streams, htalk, htalk', hstreams, (Option.some.inj h).symm⟩
  · rintro ⟨hcalls, talk, talk', streams, htalk, htalk', hstreams, rfl⟩
    rw [hstep hcalls, htalk, Option.bind_eq_bind, Option.bind_some, htalk', Option.bind_eq_bind,
      Option.bind_some, hstreams]
    rfl

theorem Keyed.mapIdx {streams : List ActStream} (h : Keyed streams i key) (bytes : Nat → Bytes) :
    Keyed (streams.mapIdx fun i s => s.write (bytes i)) i key := by
  obtain ⟨s, hs, hkey⟩ := h
  refine ⟨s.write (bytes i), ?_, hkey⟩
  rw [List.getElem?_mapIdx, hs]
  rfl

theorem Fetches.dubbo (hm : Fetches server) (htalk : server.dubboChannelMap key = some talk)
    {e : Talk.Event Request Response (Nat × Nat)} (hstep : talk.step dubboProtocol e = some talk')
    (hcalls : e.calls = []) (bytes : Nat → Bytes) :
    Fetches ⟨Function.update server.dubboChannelMap key (some talk'),
      server.streams.mapIdx fun i s => s.write (bytes i)⟩ := by
  have hissued : talk'.issued = talk.issued := by
    rw [(Talk.step_grows hstep).issued, hcalls, List.append_nil]
  have hself : Function.update server.dubboChannelMap key (some talk') key = some talk' :=
    Function.update_self _ _ _
  have hother : ∀ key', key' ≠ key →
      Function.update server.dubboChannelMap key (some talk') key' =
        server.dubboChannelMap key' := fun key' hne => Function.update_of_ne hne _ _
  have hold : ∀ key' talk₀, Function.update server.dubboChannelMap key (some talk') key' =
      some talk₀ → ∃ talk₁, server.dubboChannelMap key' = some talk₁ ∧
        talk₀.issued = talk₁.issued ∧
        (Talk.Sent dubboProtocol talk₁ → Talk.Sent dubboProtocol talk₀) := by
    intro key' talk₀ htalk₀
    by_cases hk : key' = key
    · subst hk
      obtain rfl : talk' = talk₀ := Option.some.inj (hself.symm.trans htalk₀)
      exact ⟨talk, htalk, hissued, fun hsent => hsent.step hstep⟩
    · exact ⟨talk₀, (hother key' hk).symm.trans htalk₀, rfl, id⟩
  refine ⟨?_, ?_, ?_, ?_⟩
  · intro i s₁ hget
    rw [List.getElem?_mapIdx] at hget
    obtain ⟨s, hs, rfl⟩ := Option.map_eq_some_iff.mp hget
    have hstream : StreamFetches server.dubboChannelMap i (s.write (bytes i)) := by
      obtain ⟨hreads, hidle, hshared⟩ := hm.streams i s hs
      exact ⟨hreads, hidle, hshared⟩
    apply hstream.of_channels
    intro key' talk₀ _ htalk₀
    by_cases hk : key' = key
    · subst hk
      obtain rfl : talk = talk₀ := Option.some.inj (htalk.symm.trans htalk₀)
      exact ⟨talk', hself, by rw [hissued]⟩
    · exact ⟨talk₀, (hother key' hk).trans htalk₀, rfl⟩
  · intro key' talk₀ htalk₀ call hcall
    obtain ⟨talk₁, htalk₁, hsame, _⟩ := hold key' talk₀ htalk₀
    exact (hm.owners key' talk₁ htalk₁ call (hsame ▸ hcall)).mapIdx bytes
  · intro key' talk₀ htalk₀
    obtain ⟨talk₁, htalk₁, _⟩ := hold key' talk₀ htalk₀
    obtain ⟨i, hkeyed⟩ := hm.opened key' talk₁ htalk₁
    exact ⟨i, hkeyed.mapIdx bytes⟩
  · intro key' talk₀ htalk₀
    obtain ⟨talk₁, htalk₁, _, hsent⟩ := hold key' talk₀ htalk₀
    exact hsent (hm.sent key' talk₁ htalk₁)

/-! ### Streams come, and bytes on them -/

theorem getElem?_accept {streams : List ActStream} {i : Nat} {s : ActStream}
    (h : (streams ++ [({} : ActStream)])[i]? = some s) : streams[i]? = some s ∨ s = {} := by
  rcases Nat.lt_or_ge i streams.length with hlt | hge
  · rw [List.getElem?_append_left hlt] at h
    exact Or.inl h
  · rw [List.getElem?_append_right hge] at h
    exact Or.inr (List.mem_singleton.mp (List.mem_of_getElem? h))

theorem Keyed.append {streams : List ActStream} (h : Keyed streams i key) (s : ActStream) :
    Keyed (streams ++ [s]) i key := by
  obtain ⟨s₀, hs₀, hkey⟩ := h
  exact ⟨s₀, by rw [List.getElem?_append_left (List.getElem?_eq_some_iff.mp hs₀).1, hs₀], hkey⟩

theorem Fetches.accept (hm : Fetches server) :
    Fetches { server with streams := server.streams ++ [{}] } := by
  refine ⟨?_, ?_, ?_, hm.sent⟩
  · intro i s hget
    rcases getElem?_accept hget with hs | rfl
    · exact hm.streams i s hs
    · refine ⟨?_, fun _ => rfl, fun key hkey => nomatch hkey⟩
      intro stage hstage
      obtain rfl := Option.some.inj hstage
      exact .refl _ _
  · exact fun key talk htalk call hcall => (hm.owners key talk htalk call hcall).append {}
  · intro key talk htalk
    obtain ⟨i, hkeyed⟩ := hm.opened key talk htalk
    exact ⟨i, hkeyed.append {}⟩

theorem Fetches.arrive (hm : Fetches server) (hs : server.streams[i]? = some s) (bs : Bytes) :
    Fetches { server with streams := server.streams.set i { s with
      arrived := s.arrived ++ bs
      buffer := s.buffer ++ bs } } := by
  have hstream := hm.streams i s hs
  refine ⟨?_, ?_, ?_, hm.sent⟩
  · intro i' s₀ hget
    rcases getElem?_set_cases hget with ⟨rfl, rfl⟩ | ⟨_, hget⟩
    · refine ⟨?_, hstream.idle, hstream.shared⟩
      intro stage hstage
      exact (hstream.reads stage hstage).append bs
    · exact hm.streams i' s₀ hget
  · exact fun key talk htalk call hcall => (hm.owners key talk htalk call hcall).set hs id
  · intro key talk htalk
    obtain ⟨i', hkeyed⟩ := hm.opened key talk htalk
    exact ⟨i', hkeyed.set hs id⟩

theorem resume_eq_some_iff : step server (.resume i) = some server' ↔
    ∃ s stage channels', server.streams[i]? = some s ∧ s.stage = some stage ∧
      stage.numBytes ≤ s.buffer.length ∧
      perform server.dubboChannelMap (i, s.requests.length) (stage.effect (s.data stage)) =
        some channels' ∧
      server' = ⟨channels', server.streams.set i (s.advance stage)⟩ := by
  constructor
  · intro h
    obtain ⟨s, hs, h⟩ := Option.bind_eq_some_iff.mp h
    obtain ⟨stage, hstage, h⟩ := Option.bind_eq_some_iff.mp h
    rw [Option.ite_none_right_eq_some] at h
    obtain ⟨hle, h⟩ := h
    obtain ⟨channels, hperform, h⟩ := Option.bind_eq_some_iff.mp h
    exact ⟨s, stage, channels, hs, hstage, hle, hperform, (Option.some.inj h).symm⟩
  · rintro ⟨s, stage, channels', hs, hstage, hle, hperform, rfl⟩
    simp only [step, Serving.resume, hs, hstage, Option.bind_eq_bind, Option.bind_some,
      if_pos hle, hperform]

/-- Whatever happens, and whatever ids the requests have. -/
theorem Fetches.step (hm : Fetches server) {e : Event} (h : step server e = some server') :
    Fetches server' := by
  cases e with
  | accept =>
    obtain rfl := Option.some.inj h
    exact hm.accept
  | arrive i bs =>
    obtain ⟨s, hs, h⟩ := Option.bind_eq_some_iff.mp h
    obtain rfl := Option.some.inj h
    exact hm.arrive hs bs
  | resume i =>
    obtain ⟨s, stage, channels', hs, hstage, hle, hperform, rfl⟩ := resume_eq_some_iff.mp h
    exact hm.resume hstage hs hle hperform
  | dubbo key e =>
    obtain ⟨hcalls, talk, talk', streams, htalk, hstep, hfold, rfl⟩ := dubbo_eq_some_iff.mp h
    obtain ⟨_, rfl⟩ := foldlM_callback_iff.mp hfold
    exact hm.dubbo htalk hstep hcalls _

theorem StreamFetches.request_of_key (hs : StreamFetches channels i s) (hkey : s.key = some key)
    {request : ActRequest} (hmem : request ∈ s.requests) :
    request.key = key ∧ request.id < 4294967296 := by
  obtain ⟨stage, hstage, hkey⟩ := Option.bind_eq_some_iff.mp hkey
  have hsteps := hs.reads stage hstage
  have hkey' := (steps_key hsteps).2 request hmem
  exact ⟨Option.some.inj (hkey'.symm.trans hkey), steps_ids hsteps trivial request hmem⟩

/-! ### Runs in which the ids are fresh -/

/-- A callback of a connection belongs to a request of a stream of that key. -/
theorem Inv.made_at (hm : Inv server) (htalk : server.dubboChannelMap key = some talk)
    (htalk' : Talk.Inv dubboProtocol talk') (hissued : talk'.issued = talk.issued)
    {made : (Nat × Nat) × Response} (hmade : made ∈ talk'.conn.called) :
    ∃ s request r, server.streams[addressee made]? = some s ∧ s.key = some key ∧
      s.requests[made.1.2]? = some request ∧ made.2.id = request.id ∧
      request.id < 4294967296 ∧ made.2.result.length < 4294967296 ∧ r ∈ talk'.served ∧
      r.value = made.2 ∧ talk.issued[r.ticket]? = some (makeDubboRequest request, made.1) := by
  obtain ⟨r, call, hr, hcall, rfl, hframe⟩ := htalk'.made hmade
  rw [hissued] at hcall
  obtain ⟨s, request, hs, hkey, hrequest, heq, _⟩ := hm.fetches.call_at htalk hcall
  obtain ⟨hid, hlen⟩ := dubboFrame_response hframe
  obtain ⟨_, hlt⟩ := (hm.fetches.streams _ s hs).request_of_key hkey
    (List.mem_of_getElem? hrequest)
  have hsame : (r.value.id : Int) = request.id := hid.trans (congrArg Request.id heq)
  refine ⟨s, request, r, hs, hkey, hrequest, by exact_mod_cast hsame, hlt, hlen, hr, rfl, ?_⟩
  rw [hcall, ← heq]

theorem Inv.not_called (hm : Inv server) (hs : server.streams[i]? = some s)
    (hkey : s.key ≠ some key) (htalk : server.dubboChannelMap key = some talk)
    (htalk' : Talk.Inv dubboProtocol talk') (hissued : talk'.issued = talk.issued) :
    ownedBy addressee i talk'.conn.called = [] := by
  apply ownedBy_eq_nil
  rintro made hmade rfl
  obtain ⟨s₀, _, _, hs₀, hkey₀, _⟩ := hm.made_at htalk htalk' hissued hmade
  obtain rfl : s = s₀ := Option.some.inj (hs.symm.trans hs₀)
  exact hkey hkey₀

section
variable (hm : Inv server) (hs : server.streams[i]? = some s) {stage : Stage}
  (hstage : s.stage = some stage) (hle : stage.numBytes ≤ s.buffer.length)
include hm hs hstage hle

omit hle in
/-- A coroutine goes on when its request can be sent under its id. -/
theorem Inv.performs (hallowed : Allowed server (.resume i)) : ∃ channels',
    perform server.dubboChannelMap (i, s.requests.length) (stage.effect (s.data stage)) =
        some channels' ∧
      ∀ key talk', channels' key = some talk' → Talk.Reached dubboProtocol talk' := by
  cases heffect : stage.effect (s.data stage) with
  | nothing => exact ⟨_, rfl, hm.talks⟩
  | channel key =>
    refine ⟨_, rfl, ?_⟩
    intro key' talk' htalk'
    rcases openChannel_cases htalk' with htalk | ⟨_, rfl⟩
    · exact hm.talks key' talk' htalk
    · exact .refl
  | fetch request =>
    have hsome : s.key = some request.key := by
      rw [ActStream.key, hstage, Option.bind_some, Stage.key_of_fetch heffect]
    obtain ⟨talk, htalk, _⟩ := (hm.fetches.streams i s hs).shared _ hsome
    have hfetch : server.nextFetch i = some request := by
      simp only [nextFetch, hs, hstage, heffect, Option.bind_eq_bind, Option.bind_some]
    have hcan : Talk.Allowed dubboProtocol talk
        (.fetch (makeDubboRequest request) (i, s.requests.length)) :=
      ⟨hallowed.1 request hfetch, hallowed.2 request hfetch talk htalk⟩
    obtain ⟨talk', hstep⟩ := Option.isSome_iff_exists.mp
      ((hm.talk_inv htalk).returns dubboProtocol_lawful (by trivial) hcan)
    refine ⟨Function.update server.dubboChannelMap request.key (some talk'),
      by simp only [perform, htalk, hstep, Option.bind_eq_bind, Option.bind_some], ?_⟩
    intro key talk₀ htalk₀
    by_cases hk : key = request.key
    · subst hk
      rw [Function.update_self, Option.some.injEq] at htalk₀
      subst htalk₀
      exact (hm.talks _ talk htalk).tail ⟨_, hcan, hstep⟩
    · rw [Function.update_of_ne hk] at htalk₀
      exact hm.talks key talk₀ htalk₀

theorem Inv.resume (hallowed : Allowed server (.resume i)) :
    ∃ channels', perform server.dubboChannelMap (i, s.requests.length)
        (stage.effect (s.data stage)) = some channels' ∧
      Inv ⟨channels', server.streams.set i (s.advance stage)⟩ := by
  obtain ⟨channels', hperform, htalks⟩ := hm.performs hs hstage hallowed
  refine ⟨channels', hperform, hm.fetches.resume hstage hs hle hperform, htalks, ?_, ?_⟩
  · intro i' s₀ hget hnone
    rcases getElem?_set_cases hget with ⟨rfl, rfl⟩ | ⟨_, hget⟩
    · refine hm.unwritten _ s hs ?_
      cases hkey : s.key with
      | none => rfl
      | some key => cases hnone.symm.trans (advance_keeps_key hstage hkey)
    · exact hm.unwritten i' s₀ hget hnone
  · intro i' s₀ key talk' hget hkey htalk'
    have hold : ∀ s₁, server.streams[i']? = some s₁ → s₁.key = some key →
        s₁.written = ((ownedBy addressee i' talk'.conn.called).map answer).flatten := by
      intro s₁ hs₁ hkey₁
      obtain ⟨talk, htalk, _⟩ := (hm.fetches.streams i' s₁ hs₁).shared key hkey₁
      rcases perform_cases hperform htalk' with ⟨talk₀, htalk₀, hfetched⟩ | ⟨_, hnone, _⟩
      · rw [hfetched.called]
        exact hm.written i' s₁ key talk₀ hs₁ hkey₁ htalk₀
      · cases hnone.symm.trans htalk
    rcases getElem?_set_cases hget with ⟨rfl, rfl⟩ | ⟨_, hget⟩
    · cases hsome : s.key with
      | some key₀ =>
        obtain rfl : key₀ = key :=
          Option.some.inj ((advance_keeps_key hstage hsome).symm.trans hkey)
        exact hold s hs hsome
      | none =>
        have hcalled : ownedBy addressee i' talk'.conn.called = [] := by
          rcases perform_cases hperform htalk' with ⟨talk, htalk, hfetched⟩ | ⟨_, _, rfl⟩
          · rw [hfetched.called]
            exact hm.not_called hs (by simp [hsome]) htalk (hm.talk_inv htalk) rfl
          · rfl
        rw [hcalled]
        exact hm.unwritten _ s hs hsome
    · exact hold s₀ hget hkey

end

theorem Inv.dubbo (hm : Inv server) (htalk : server.dubboChannelMap key = some talk)
    {e : Talk.Event Request Response (Nat × Nat)} (hstep : talk.step dubboProtocol e = some talk')
    (hcalls : e.calls = []) (hregular : Talk.Regular dubboProtocol talk e) :
    ∃ new, talk'.conn.called = talk.conn.called ++ new ∧
      (talk'.conn.called.drop talk.conn.called.length).foldlM callback server.streams =
        some (server.streams.mapIdx fun i s => s.write (answers new i)) ∧
      Inv ⟨Function.update server.dubboChannelMap key (some talk'),
        server.streams.mapIdx fun i s => s.write (answers new i)⟩ := by
  obtain ⟨new, hnew⟩ := (Talk.step_grows hstep).called
  have hissued : talk'.issued = talk.issued := by
    rw [(Talk.step_grows hstep).issued, hcalls, List.append_nil]
  have hreached : Talk.Reached dubboProtocol talk' :=
    (hm.talks key talk htalk).tail ⟨e, ⟨hregular, Talk.fresh_of_calls hcalls⟩, hstep⟩
  have htalk' : Talk.Inv dubboProtocol talk' := Talk.inv_of_reached dubboProtocol_lawful hreached
  have hself : Function.update server.dubboChannelMap key (some talk') key = some talk' :=
    Function.update_self _ _ _
  have hother : ∀ key', key' ≠ key →
      Function.update server.dubboChannelMap key (some talk') key' =
        server.dubboChannelMap key' := fun key' hne => Function.update_of_ne hne _ _
  -- a stream with another key, or without one, is written nothing
  have hforeign : ∀ (i : Nat) s, server.streams[i]? = some s → s.key ≠ some key →
      answers new i = [] := by
    intro i s hs hne
    have hnone := hm.not_called hs hne htalk htalk' hissued
    rw [← hnew, ownedBy_append, List.append_eq_nil_iff] at hnone
    rw [answers, hnone.2]
    rfl
  refine ⟨new, hnew.symm, ?_, hm.fetches.dubbo htalk hstep hcalls _, ?_, ?_, ?_⟩
  · rw [← hnew, List.drop_left]
    refine foldlM_callback_iff.mpr ⟨?_, rfl⟩
    intro made hmem
    obtain ⟨s, request, r, hs, _, _, hid, hlt, hlen, _⟩ :=
      hm.made_at htalk htalk' hissued (hnew ▸ List.mem_append_right _ hmem)
    exact ⟨(List.getElem?_eq_some_iff.mp hs).1, by rw [hid]; exact hlt, hlen⟩
  · intro key' talk₀ htalk₀
    by_cases hk : key' = key
    · subst hk
      obtain rfl : talk' = talk₀ := Option.some.inj (hself.symm.trans htalk₀)
      exact hreached
    · exact hm.talks key' talk₀ ((hother key' hk).symm.trans htalk₀)
  · intro i s₁ hget hnone
    rw [List.getElem?_mapIdx] at hget
    obtain ⟨s, hs, rfl⟩ := Option.map_eq_some_iff.mp hget
    have hnone' : s.key = none := hnone
    rw [ActStream.write, hforeign i s hs (by simp [hnone']), List.append_nil]
    exact hm.unwritten i s hs hnone'
  · intro i s₁ key' talk₀ hget hkey' htalk₀
    rw [List.getElem?_mapIdx] at hget
    obtain ⟨s, hs, rfl⟩ := Option.map_eq_some_iff.mp hget
    have hkey : s.key = some key' := hkey'
    by_cases hk : key' = key
    · subst hk
      obtain rfl : talk' = talk₀ := Option.some.inj (hself.symm.trans htalk₀)
      rw [ActStream.write, hm.written i s key' talk hs hkey htalk, ← hnew, ownedBy_append,
        List.map_append, List.flatten_append]
      rfl
    · rw [ActStream.write, hforeign i s hs (by simp [hkey, hk]), List.append_nil]
      exact hm.written i s key' talk₀ hs hkey ((hother key' hk).symm.trans htalk₀)

/-- No stream is sent two responses to one of its requests. -/
theorem tickets_nodup (htalk : Talk.Inv dubboProtocol talk)
    (hinj : ∀ (t t' : Nat) (call call' : Request × Nat × Nat), talk.issued[t]? = some call →
      talk.issued[t']? = some call' → call.2 = call'.2 → t = t') (i : Nat) :
    ((ownedBy addressee i talk.conn.called).map fun made => made.1.2).Nodup := by
  have hsub : ((ownedBy addressee i talk.conn.called).map Prod.fst).Nodup :=
    (htalk.called_nodup hinj).sublist (List.filter_sublist.map _)
  apply List.Nodup.map_on _ (List.Nodup.of_map _ hsub)
  intro made hmem made' hmem' heq
  apply List.inj_on_of_nodup_map hsub hmem hmem'
  exact Prod.ext ((mem_ownedBy.mp hmem).2.trans (mem_ownedBy.mp hmem').2.symm) heq

theorem Inv.accept (hm : Inv server) :
    Inv { server with streams := server.streams ++ [{}] } := by
  refine ⟨hm.fetches.accept, hm.talks, ?_, ?_⟩
  · intro i s hget hnone
    rcases getElem?_accept hget with hs | rfl
    · exact hm.unwritten i s hs hnone
    · rfl
  · intro i s key talk hget hkey htalk
    rcases getElem?_accept hget with hs | rfl
    · exact hm.written i s key talk hs hkey htalk
    · cases hkey

theorem Inv.arrive (hm : Inv server) (hs : server.streams[i]? = some s) (bs : Bytes) :
    Inv { server with streams := server.streams.set i { s with
      arrived := s.arrived ++ bs
      buffer := s.buffer ++ bs } } := by
  refine ⟨hm.fetches.arrive hs bs, hm.talks, ?_, ?_⟩
  · intro i' s₀ hget hnone
    rcases getElem?_set_cases hget with ⟨rfl, rfl⟩ | ⟨_, hget⟩
    · exact hm.unwritten _ s hs hnone
    · exact hm.unwritten i' s₀ hget hnone
  · intro i' s₀ key talk hget hkey htalk
    rcases getElem?_set_cases hget with ⟨rfl, rfl⟩ | ⟨_, hget⟩
    · exact hm.written _ s key talk hs hkey htalk
    · exact hm.written i' s₀ key talk hget hkey htalk

theorem inv_step {e : Event} (hm : Inv server) (he : Allowed server e)
    (hstep : step server e = some server') : Inv server' := by
  cases e with
  | accept =>
    obtain rfl := Option.some.inj hstep
    exact hm.accept
  | arrive i bs =>
    obtain ⟨s, hs, hstep⟩ := Option.bind_eq_some_iff.mp hstep
    obtain rfl := Option.some.inj hstep
    exact hm.arrive hs bs
  | resume i =>
    obtain ⟨s, stage, channels, hs, hstage, hle, hperform, rfl⟩ := resume_eq_some_iff.mp hstep
    obtain ⟨channels', hperform', hinv⟩ := hm.resume hs hstage hle he
    obtain rfl : channels = channels' := Option.some.inj (hperform.symm.trans hperform')
    exact hinv
  | dubbo key e =>
    obtain ⟨hcalls, talk, talk', streams, htalk, htalk', hstreams, rfl⟩ :=
      dubbo_eq_some_iff.mp hstep
    obtain ⟨new, _, hfold, hinv⟩ := hm.dubbo htalk htalk' hcalls (he.1 talk htalk)
    obtain rfl := Option.some.inj (hstreams.symm.trans hfold)
    exact hinv

theorem inv_of_reached (h : Reached server) : Inv server :=
  h.invariant inv_start fun _ _ _ hm he hstep => inv_step hm he hstep

/-! ### What a user of the agent can rely on -/

/-- The requests made are those the streams hold, however these were cut. To each stream the
responses to requests of its own are written, each of them once and as the provider has sent it; and
nothing that can happen and is allowed raises an exception. -/
structure Sound (server : Serving) : Prop where
  requests : ∀ (i : Nat) s, server.streams[i]? = some s → s.requests <+: readStream s.arrived
  waits : ∀ (i : Nat) s stage, server.streams[i]? = some s → s.stage = some stage →
    s.buffer.length < stage.numBytes → s.requests = readStream s.arrived
  fetched : ∀ (i : Nat) s key, server.streams[i]? = some s → s.key = some key →
    ∃ talk, server.dubboChannelMap key = some talk ∧ ownedBy caller i talk.issued =
      s.requests.mapIdx fun j request => (makeDubboRequest request, (i, j))
  answered : ∀ (i : Nat) s, server.streams[i]? = some s →
    ∃ (answered : List (Nat × Response)) (bodies : List Bytes), (answered.map Prod.fst).Nodup ∧
      answered.mapM (fun a => (makeActResponse a.2).encodeBody) = some bodies ∧
      s.written = bodies.flatten ∧
      ∀ a ∈ answered, ∃ request talk r, s.requests[a.1]? = some request ∧
        server.dubboChannelMap request.key = some talk ∧ r ∈ talk.replies ∧
        talk.issued[r.ticket]? = some (makeDubboRequest request, (i, a.1)) ∧ r.value = a.2 ∧
        a.2.id = request.id
  returns : ∀ e, Can server e → Allowed server e → (step server e).isSome

theorem mapM_answer {made : List ((Nat × Nat) × Response)}
    (h : ∀ m ∈ made, m.2.id < 4294967296 ∧ m.2.result.length < 4294967296) :
    (made.map fun m => (m.1.2, m.2)).mapM
      (fun a : Nat × Response => (makeActResponse a.2).encodeBody) = some (made.map answer) := by
  induction made with
  | nil => rfl
  | cons m made ih =>
    have hbody : (makeActResponse m.2).encodeBody = some (answer m) :=
      encodeBody_eq_some_iff.mpr ⟨h m List.mem_cons_self, rfl⟩
    rw [List.map_cons, List.mapM_cons, hbody, ih fun m' hm' => h m' (List.mem_cons_of_mem m hm')]
    rfl

theorem Inv.answered (hm : Inv server) (hs : server.streams[i]? = some s) :
    ∃ (answered : List (Nat × Response)) (bodies : List Bytes), (answered.map Prod.fst).Nodup ∧
      answered.mapM (fun a => (makeActResponse a.2).encodeBody) = some bodies ∧
      s.written = bodies.flatten ∧
      ∀ a ∈ answered, ∃ request talk r, s.requests[a.1]? = some request ∧
        server.dubboChannelMap request.key = some talk ∧ r ∈ talk.replies ∧
        talk.issued[r.ticket]? = some (makeDubboRequest request, (i, a.1)) ∧ r.value = a.2 ∧
        a.2.id = request.id := by
  have hstream := hm.fetches.streams i s hs
  cases hkey : s.key with
  | none => exact ⟨[], [], List.nodup_nil, rfl, hm.unwritten i s hs hkey, by simp⟩
  | some key =>
    obtain ⟨talk, htalk, _⟩ := hstream.shared key hkey
    have htalk' := hm.talk_inv htalk
    have hwritten := hm.written i s key talk hs hkey htalk
    let made := ownedBy addressee i talk.conn.called
    have hmade : ∀ m ∈ made, m ∈ talk.conn.called ∧ addressee m = i :=
      fun m hmem => mem_ownedBy.mp hmem
    refine ⟨made.map fun m => (m.1.2, m.2), made.map answer, ?_, mapM_answer ?_, hwritten, ?_⟩
    · rw [List.map_map]
      exact tickets_nodup htalk' (hm.fetches.issued_inj htalk) i
    · intro m hmem
      obtain ⟨_, request, _, _, _, _, hid, hlt, hlen, _⟩ :=
        hm.made_at htalk htalk' rfl (hmade m hmem).1
      exact ⟨by rw [hid]; exact hlt, hlen⟩
    · intro a ha
      obtain ⟨m, hmem, rfl⟩ := List.mem_map.mp ha
      obtain ⟨hcalled, rfl⟩ := hmade m hmem
      obtain ⟨s₀, request, r, hs₀, hkey₀, hrequest, hid, _, _, hr, hvalue, hissued⟩ :=
        hm.made_at htalk htalk' rfl hcalled
      obtain rfl : s = s₀ := Option.some.inj (hs.symm.trans hs₀)
      obtain ⟨hreq, _⟩ := hstream.request_of_key hkey (List.mem_of_getElem? hrequest)
      exact ⟨request, talk, r, hrequest, by rw [hreq, htalk], talk.served_subset hr, hissued,
        hvalue, hid⟩

/-- What can happen and is allowed does. -/
theorem Inv.returns (hm : Inv server) {e : Event} (hcan : Can server e)
    (hallowed : Allowed server e) : (step server e).isSome := by
  cases e with
  | accept => rfl
  | arrive i bs =>
    simp only [step, List.getElem?_eq_getElem (show i < server.streams.length from hcan)]
    rfl
  | resume i =>
    obtain ⟨s, stage, hs, hstage, hle⟩ := hcan
    obtain ⟨channels, hperform, _⟩ := hm.performs hs hstage hallowed
    rw [resume_eq_some_iff.mpr ⟨s, stage, channels, hs, hstage, hle, hperform, rfl⟩]
    rfl
  | dubbo key e =>
    obtain ⟨hfetch, talk, htalk, hcan⟩ := hcan
    have hcalls := Talk.Event.calls_eq_nil hfetch
    have hregular := hallowed.1 talk htalk
    obtain ⟨talk', hstep⟩ := Option.isSome_iff_exists.mp ((hm.talk_inv htalk).returns
      dubboProtocol_lawful hcan ⟨hregular, Talk.fresh_of_calls hcalls⟩)
    obtain ⟨new, _, hfold, _⟩ := hm.dubbo htalk hstep hcalls hregular
    rw [dubbo_eq_some_iff.mpr ⟨hcalls, talk, talk', _, htalk, hstep, hfold, rfl⟩]
    rfl

theorem Inv.sound (hm : Inv server) : Sound server := by
  refine ⟨?_, ?_, ?_, fun i s hs => hm.answered hs, fun _ => hm.returns⟩
  · intro i s hs
    have hstream := hm.fetches.streams i s hs
    cases hstage : s.stage with
    | none =>
      rw [hstream.idle (by rw [ActStream.key, hstage]; rfl)]
      exact List.nil_prefix
    | some stage => exact (readStream_rests s.arrived).isPrefix (hstream.reads stage hstage)
  · intro i s stage hs hstage hwaits
    exact (readStream_rests s.arrived).eq_of_waits
      ((hm.fetches.streams i s hs).reads stage hstage) hwaits
  · intro i s key hs hkey
    exact (hm.fetches.streams i s hs).shared key hkey

/-! ### One stream as a whole -/

/-- The connection of a channel without its callbacks. -/
def dubboConnection (talk : Channel) : DubboConnection :=
  ⟨talk.conn.connected, talk.conn.queue, talk.conn.stream⟩

/-- What a Dubbo connection has written, or will once it is up. -/
theorem sent_of_talk (hsent : Talk.Sent dubboProtocol talk) : (dubboConnection talk).sent =
      ((talk.issued.map Prod.fst).mapM Request.encode).map List.flatten := by
  obtain ⟨written, hsplit, ⟨_, rfl, hstream⟩ | ⟨_, hqueue, greeting, bodies, hgreeting, hbodies,
    hstream⟩⟩ := hsent
  · rw [hsplit, dubboConnection, DubboConnection.sent, hstream]
    rfl
  · obtain rfl : [] = greeting := Option.some.inj hgreeting
    have hbodies' : written.mapM Request.encode = some bodies := hbodies
    rw [hsplit, hqueue, List.append_nil, hbodies']
    simp [dubboConnection, DubboConnection.sent, hqueue, hstream]

theorem Fetches.sent_as_whole (hm : Fetches server) (hs : server.streams[i]? = some s)
    (hkey : s.key = some key) {stage : Stage} (hstage : s.stage = some stage)
    (hwaits : s.buffer.length < stage.numBytes)
    (halone : ∀ (i' : Nat) s', server.streams[i']? = some s' → s'.key = some key → i' = i)
    (htalk : server.dubboChannelMap key = some talk) :
    ((handleStream (fun _ => none) s.arrived).bind fun whole => (whole.channel key).sent) =
      (dubboConnection talk).sent := by
  have hstream := hm.streams i s hs
  have hreads := hstream.reads stage hstage
  have hall : ownedBy caller i talk.issued = talk.issued := by
    apply ownedBy_eq_self
    intro call hcall
    obtain ⟨s', hs', hkey'⟩ := hm.owners key talk htalk call hcall
    exact halone _ s' hs' hkey'
  obtain ⟨talk', htalk', hissued⟩ := hstream.shared key hkey
  obtain rfl : talk = talk' := Option.some.inj (htalk.symm.trans htalk')
  have hfetched : talk.issued.map Prod.fst = s.requests.map makeDubboRequest := by
    rw [← hall, hissued]
    apply List.ext_getElem?
    intro j
    simp only [List.getElem?_map, List.getElem?_mapIdx]
    cases s.requests[j]? <;> rfl
  have hrequests := (readStream_rests s.arrived).eq_of_waits hreads hwaits
  have hkey' : stage.key = some key := by
    rwa [ActStream.key, hstage, Option.bind_some] at hkey
  obtain ⟨rest, hread⟩ := readKey_of_steps hreads hkey'
  have hwhole : readStream s.arrived = readRequests key rest := by
    rw [readStream, hread, Option.elim_some]
  have hserve := DubboConnection.foldlM_fetch_sent
    ((readRequests key rest).map makeDubboRequest) {}
  rw [List.foldlM_map, ← serve_eq_foldlM] at hserve
  have hhandle : handleStream (fun _ => none) s.arrived =
      (serve key rest {}).map (PAServer.setChannel (fun _ => none) key) := by
    simp only [handleStream, hread]
    rfl
  rw [sent_of_talk (hm.sent key talk htalk), hfetched, hrequests, hwhole, hhandle, Option.bind_map]
  have hchannel : ∀ conn, (PAServer.setChannel (fun _ => none) key conn).channel key = conn :=
    PAServer.channel_setChannel _ key
  simp only [Function.comp_def, hchannel]
  refine hserve.trans ?_
  simp [DubboConnection.sent]

end

theorem streams_sound_of_reached {server : Serving} (h : Reached server) : Sound server :=
  (inv_of_reached h).sound

/-- The coroutine of a stream, however often it has waited and whatever else went on meanwhile, has
sent to the provider what `handle_stream` sends when it is run on all of the stream at once. -/
theorem sent_as_whole_of_runs {server : Serving} (h : Runs (fun _ _ => True) step {} server)
    {i : Nat} {s : ActStream} {stage : Stage} {key : ChannelKey} (hs : server.streams[i]? = some s)
    (hstage : s.stage = some stage) (hwaits : s.buffer.length < stage.numBytes)
    (hkey : s.key = some key)
    (halone : ∀ (i' : Nat) s', server.streams[i']? = some s' → s'.key = some key → i' = i) :
    ∃ talk, server.dubboChannelMap key = some talk ∧
      ((handleStream (fun _ => none) s.arrived).bind fun whole => (whole.channel key).sent) =
        (dubboConnection talk).sent := by
  have hm : Fetches server := h.invariant fetches_start fun _ _ _ hm _ hstep => hm.step hstep
  obtain ⟨talk, htalk, _⟩ := (hm.streams i s hs).shared key hkey
  exact ⟨talk, htalk, hm.sent_as_whole hs hkey hstage hwaits halone htalk⟩

/-! ## Two streams and one id -/

/-- `Regular`, by computation. -/
def checkRegular (server : Serving) : Event → Bool
  | .resume i => (server.nextFetch i).all fun request => (makeDubboRequest request).encode.isSome
  | .dubbo key e => (server.dubboChannelMap key).all fun talk =>
      Talk.checkRegular checkDubboFrame dubboProtocol talk e
  | _ => true

/-- `FreshIds`, by computation. -/
def checkFresh (server : Serving) : Event → Bool
  | .resume i => (server.nextFetch i).all fun request =>
      (server.dubboChannelMap request.key).all fun talk => (talk.conn.callbacks request.id).isNone
  | _ => true

def checkAllowed (server : Serving) (e : Event) : Bool :=
  checkRegular server e && checkFresh server e

def canRead (server : Serving) (key : ChannelKey) : Bool :=
  (server.dubboChannelMap key).any (Talk.canRead dubboProtocol)

section
variable {server : Serving} {e : Event}

theorem regular_of_check (h : checkRegular server e = true) : Regular server e := by
  cases e with
  | resume i =>
    intro request hrequest
    rw [checkRegular, hrequest, Option.all_some] at h
    exact h
  | dubbo key e =>
    intro talk htalk
    rw [checkRegular, htalk, Option.all_some] at h
    exact Talk.regular_of_check dubboFrame_of_check h
  | _ => trivial

theorem can_of_canRead {key : ChannelKey} (h : server.canRead key = true) :
    Can server (.dubbo key .readCallback) := by
  obtain ⟨talk, htalk, hread⟩ := (Option.any_eq_true _ _).mp h
  exact ⟨by simp, talk, htalk, Talk.can_of_canRead hread⟩

theorem allowed_of_check (h : checkAllowed server e = true) : Allowed server e := by
  rw [checkAllowed, Bool.and_eq_true] at h
  refine ⟨regular_of_check h.1, ?_⟩
  cases e with
  | resume i =>
    intro request hrequest talk htalk
    have hfree := h.2
    simp only [checkFresh, hrequest, htalk, Option.all_some] at hfree
    exact Option.isNone_iff_eq_none.mp hfree
  | _ => trivial

end

def oneRequest (key : ChannelKey) (id : Nat) (parameter : Bytes) : Bytes :=
  [0xab, 0xcd] ++ writeInt key.interface.length ++ key.interface ++ writeInt key.method.length ++
    key.method ++ writeInt key.pts.length ++ key.pts ++ writeInt id ++ writeInt parameter.length ++
    parameter

/-- A request on each of two streams, read field by field. -/
def twoStreams (key key' : ChannelKey) : List Event :=
  [.accept, .accept, .arrive 0 (oneRequest key 7 [120]), .arrive 1 (oneRequest key' 7 [121])] ++
    List.replicate 10 (.resume 0) ++ List.replicate 10 (.resume 1)

def first : ChannelKey := ⟨[73], [77], [80]⟩

def second : ChannelKey := ⟨[73], [77], [81]⟩

/-- The provider answers the later request first. -/
def twoReplies : List Event :=
  [.dubbo first .connect, .dubbo second .connect, .dubbo second (.reply (dubboReply 0 7 [66])),
    .dubbo first (.reply (dubboReply 0 7 [65])), .dubbo first (.receive 17),
    .dubbo second (.receive 17), .dubbo first .readCallback, .dubbo second .readCallback,
    .dubbo second .readCallback, .dubbo first .readCallback]

/-- The same id on two streams with different keys. -/
theorem streams_sound_of_reached_two_keys : ∃ server, Reached server ∧ Sound server ∧
    server.streams.map ActStream.written =
      [[0, 0, 0, 7, 0, 0, 0, 1, 65], [0, 0, 0, 7, 0, 0, 0, 1, 66]] := by
  have hrun : ((twoStreams first second ++ twoReplies).foldlM
      (fun server e => if checkAllowed server e then step server e else none)
      {}).map (fun server => server.streams.map ActStream.written) =
      some [[0, 0, 0, 7, 0, 0, 0, 1, 65], [0, 0, 0, 7, 0, 0, 0, 1, 66]] := by decide +kernel
  obtain ⟨server, hreached, hwritten⟩ := Runs.exists_of_foldlM (fun _ _ _ => allowed_of_check) hrun
  exact ⟨server, hreached, streams_sound_of_reached hreached, hwritten⟩

/-- Both requests are answered, and the first three fields of the responses are read. -/
def sharedReplies : List Event :=
  [.dubbo first .connect, .dubbo first (.reply (dubboReply 0 7 [65])),
    .dubbo first (.reply (dubboReply 1 7 [66])), .dubbo first (.receive 34),
    .dubbo first .readCallback, .dubbo first .readCallback]

/-- With one key and one id, the second stream is sent the response to the request of the first, and
the response to its own raises a `KeyError`. -/
theorem shared_id_misanswered_on_streams : ∃ server, Runs Regular step {} server ∧
    server.streams.map ActStream.written = [[], [0, 0, 0, 7, 0, 0, 0, 1, 65]] ∧
    Can server (.dubbo first .readCallback) ∧ step server (.dubbo first .readCallback) = none ∧
    ¬ Sound server := by
  have hrun : ((twoStreams first first ++ sharedReplies).foldlM
      (fun server e => if checkRegular server e then step server e else none)
      {}).map (fun server => (server.streams.map ActStream.written,
        server.canRead first && (step server (.dubbo first .readCallback)).isNone)) =
      some ([[], [0, 0, 0, 7, 0, 0, 0, 1, 65]], true) := by decide +kernel
  obtain ⟨server, hruns, hserver⟩ := Runs.exists_of_foldlM (fun _ _ _ => regular_of_check) hrun
  simp only [Prod.mk.injEq, Bool.and_eq_true, Option.isNone_iff_eq_none] at hserver
  obtain ⟨hwritten, hread, hraises⟩ := hserver
  have hcan := can_of_canRead hread
  refine ⟨server, hruns, hwritten, hcan, hraises, ?_⟩
  intro hsound
  have hsome := hsound.returns (.dubbo first .readCallback) hcan ⟨fun _ _ => trivial, trivial⟩
  rw [hraises] at hsome
  cases hsome

/-- The first of two streams, cut into ten fields, asks for what it asks for in one piece, although
the second one has another key and the same id. -/
theorem sent_as_whole_of_runs_two_keys : ∃ server talk, Runs (fun _ _ => True) step {} server ∧
    server.dubboChannelMap first = some talk ∧
    ((handleStream (fun _ => none) (oneRequest first 7 [120])).bind fun whole =>
      (whole.channel first).sent) = (dubboConnection talk).sent := by
  have hrun : ((twoStreams first second ++ twoReplies).foldlM
      (fun server e => if true then step server e else none) {}).map (fun server =>
        server.streams.map fun s => (s.arrived, s.key, s.buffer, s.stage.map Stage.numBytes)) =
      some [(oneRequest first 7 [120], some first, [], some 4),
        (oneRequest second 7 [121], some second, [], some 4)] := by decide +kernel
  obtain ⟨server, hruns, hstreams⟩ :=
    Runs.exists_of_foldlM (fun _ _ _ _ => trivial) hrun
  obtain ⟨s, rest, hsplit, hs, hrest⟩ := List.map_eq_cons_iff.mp hstreams
  obtain ⟨s', _, rfl, hs', hnil⟩ := List.map_eq_cons_iff.mp hrest
  obtain rfl := List.map_eq_nil_iff.mp hnil
  simp only [Prod.mk.injEq, Option.map_eq_some_iff] at hs hs'
  obtain ⟨harrived, hkey, hbuffer, stage, hstage, hnum⟩ := hs
  have halone : ∀ (i' : Nat) t, server.streams[i']? = some t → t.key = some first → i' = 0 := by
    intro i' t ht hkeyt
    rw [hsplit] at ht
    match i' with
    | 0 => rfl
    | 1 =>
      obtain rfl : s' = t := Option.some.inj ht
      cases hkeyt.symm.trans hs'.2.1
    | _ + 2 => cases ht
  obtain ⟨talk, htalk, hsent⟩ := sent_as_whole_of_runs hruns (by rw [hsplit]; rfl) hstage
    (by rw [hbuffer, hnum]; decide) hkey halone
  rw [harrived] at hsent
  exact ⟨server, talk, hruns, htalk, hsent⟩

end Serving

end PyAgent.Python

import Fix42.Session.HeartBeat

/-!
# Evictions are justified

`Pending` is the invariant of a client: while `TestRequest` is set, the id kept with it is that of a
TestRequest no HeartBeat has answered, and `Since` is no earlier than when it was sent.
-/

namespace Fix42

open HeartBeat HeartBeatHandler

namespace HeartBeatClient

/-! ## What is sent -/

@[simp] theorem append_events (c : HeartBeatClient) (t : Int) (m : Message) :
    (c.append t m).events = c.events ++ [.append t m] := rfl

@[simp] theorem append_info (c : HeartBeatClient) (t : Int) (m : Message) :
    (c.append t m).info = c.info := rfl

@[simp] theorem note_events (c : HeartBeatClient) (e : ClientEvent) :
    (c.note e).events = c.events ++ [e] := rfl

@[simp] theorem note_info (c : HeartBeatClient) (e : ClientEvent) : (c.note e).info = c.info := rfl

end HeartBeatClient

namespace HeartBeatHandler

variable {c c' : HeartBeatClient} {clock now t : Int} {id : String}

theorem Unanswered.snoc {e : ClientEvent} (h : Unanswered c t id) (he : c'.events = c.events ++ [e])
    (hne : e ≠ .processed (some id)) : Unanswered c' t id := by
  obtain ⟨before, after, hsplit, hnot⟩ := h
  refine ⟨before, after ++ [e], by rw [he, hsplit, List.append_assoc, List.cons_append], ?_⟩
  simp [hnot, hne.symm]

theorem Unanswered.of_events (h : Unanswered c t id) (he : c'.events = c.events) :
    Unanswered c' t id := by
  unfold Unanswered at h ⊢
  rwa [he]

/-- The TestRequest a set flag stands for. -/
def Pending (c : HeartBeatClient) (clock : Int) : Prop :=
  c.info.testRequest = true → ∃ t id, Unanswered c t id ∧ c.info.testValue = some id ∧
    t ≤ c.info.since ∧ t ≤ clock

theorem Pending.later (h : Pending c clock) (hle : clock ≤ now) : Pending c now := fun hreq =>
  let ⟨t, id, hun, hval, hsince, ht⟩ := h hreq
  ⟨t, id, hun, hval, hsince, ht.trans hle⟩

/-- A step that keeps the flag and its id, does not set `Since` back and processes no HeartBeat with
this id. -/
theorem Pending.keep (h : Pending c clock) (hreq : c'.info.testRequest = c.info.testRequest)
    (hval : c'.info.testValue = c.info.testValue)
    (hsince : c'.info.since = c.info.since ∨ clock ≤ c'.info.since)
    (hun : ∀ t id, c.info.testValue = some id → Unanswered c t id → Unanswered c' t id) :
    Pending c' clock := by
  intro hset
  obtain ⟨t, id, hu, hv, hs, ht⟩ := h (hreq ▸ hset)
  refine ⟨t, id, hun t id hv hu, hval.trans hv, ?_, ht⟩
  rcases hsince with he | hle
  · rwa [he]
  · exact ht.trans hle

theorem Pending.append (h : Pending c clock) (t : Int) (m : Message) :
    Pending (c.append t m) clock :=
  h.keep rfl rfl (.inl rfl) fun _ _ _ hu => hu.snoc rfl nofun

/-- `Since` may be set back only when no TestRequest is pending. -/
theorem Pending.of_not (h : c.info.testRequest = false) : Pending c clock := fun hset => by
  rw [h] at hset
  cases hset

theorem Pending.processHeartBeat (h : Pending c clock) (receiveTime : Int)
    (parsed : Except SessionReject (Option String)) :
    Pending (c.processHeartBeat receiveTime parsed) clock := by
  unfold HeartBeatClient.processHeartBeat
  cases parsed with
  | error reject => exact h.append receiveTime _
  | ok testReqId =>
    -- a HeartBeat that does not carry the id kept leaves the request pending
    have hnote : (∀ id, c.info.testValue = some id → testReqId ≠ some id) →
        Pending (c.note (.processed testReqId)) clock := fun hne =>
      h.keep rfl rfl (.inl rfl) fun t id hv hu =>
        hu.snoc rfl fun he => hne id hv (ClientEvent.processed.inj he)
    dsimp only
    split
    · split
      · rename_i hval
        exact hnote fun id hv => absurd (hv.symm.trans hval) (Option.some_ne_none id)
      · exact (hnote fun id _ => nofun).append _ _
      · rename_i value id hval
        split
        · rename_i hne
          exact (hnote fun id' hv he => hne <| Option.some.inj <|
            (hval.symm.trans hv).trans he.symm).append _ _
        · exact .of_not rfl
    · rename_i hreq
      exact .of_not (Bool.eq_false_iff.2 hreq)

theorem Pending.handle (h : Pending c clock) : Pending (c.handle clock) clock := by
  unfold HeartBeatClient.handle
  split
  · exact h
  · split
    · split
      · intro _
        exact ⟨clock, _, ⟨c.events, [], rfl, List.not_mem_nil⟩, rfl, le_rfl, le_rfl⟩
      · exact h.keep rfl rfl (.inl rfl) fun _ _ _ hu => hu.snoc rfl nofun
    · exact h

theorem Pending.act (h : Pending c clock) (maxTO : ℚ) (a : Act) :
    Pending (act maxTO c clock a) clock := by
  cases a with
  | newClient =>
    exact h.keep rfl rfl (.inr le_rfl) fun _ _ _ hu => hu.of_events rfl
  | logon receiveTime header parsed =>
    simp only [HeartBeatHandler.act, HeartBeatClient.logon]
    cases parsed with
    | error reject => exact h.append _ _
    | ok logon =>
      dsimp only
      split
      · exact h.append _ _
      · split
        · exact h.append _ _
        · have hsince : Pending { c with info := { c.info with since := clock } } clock :=
            h.keep rfl rfl (.inr le_rfl) fun _ _ _ hu => hu.of_events rfl
          exact hsince.append _ _
  | heartBeat receiveTime parsed => exact h.processHeartBeat receiveTime parsed
  | testRequest receiveTime parsed =>
    cases parsed <;> exact h.append _ _
  | logout receiveTime parsed =>
    cases parsed with
    | error reject => exact h.append _ _
    | ok _ => exact h.keep rfl rfl (.inl rfl) fun _ _ _ hu => hu.snoc rfl nofun
  | handle => exact h.handle
  | removed => exact h.keep rfl rfl (.inl rfl) fun _ _ _ hu => hu.of_events rfl

/-! ## Who asks for a removal -/

theorem handle_removeClient (h : (c.handle now).events = c.events ++ [.removeClient]) :
    c.loggedIn = true ∧ c.info.testRequest = true ∧ now - c.info.since > seconds c.info.elapsing := by
  unfold HeartBeatClient.handle at h
  split at h
  · simp at h
  · rename_i hin
    rw [Bool.not_eq_true, Bool.or_eq_false_iff, Bool.not_eq_eq_eq_not] at hin
    split at h
    · rename_i hlate
      split at h
      · simp at h
      · rename_i hreq
        exact ⟨hin.2, by simpa using hreq, hlate⟩
    · simp at h

/-- What a step adds to the events, the pass over a client that failed apart, is no removal. -/
theorem act_events (maxTO : ℚ) (c : HeartBeatClient) (now : Int) (a : Act) :
    ∃ es, (act maxTO c now a).events = c.events ++ es ∧
      (.removeClient ∈ es → a = .handle ∧ es = [.removeClient]) := by
  cases a with
  | newClient => exact ⟨[], (List.append_nil _).symm, nofun⟩
  | logon receiveTime header parsed =>
    simp only [act, HeartBeatClient.logon]
    cases parsed with
    | error reject => exact ⟨[_], rfl, by simp⟩
    | ok logon =>
      dsimp only
      split
      · exact ⟨[_], rfl, by simp⟩
      · split <;> exact ⟨[_], rfl, by simp⟩
  | heartBeat receiveTime parsed =>
    simp only [act, HeartBeatClient.processHeartBeat]
    cases parsed with
    | error reject => exact ⟨[_], rfl, by simp⟩
    | ok testReqId =>
      dsimp only
      split
      · split
        · exact ⟨[_], rfl, by simp⟩
        · exact ⟨[_, _], List.append_assoc _ _ _, by simp⟩
        · split <;> exact ⟨[_, _], List.append_assoc _ _ _, by simp⟩
      · exact ⟨[_, _], List.append_assoc _ _ _, by simp⟩
  | testRequest receiveTime parsed =>
    cases parsed <;> exact ⟨[_], rfl, by simp⟩
  | logout receiveTime parsed =>
    cases parsed <;> exact ⟨[_], rfl, by simp⟩
  | handle =>
    simp only [act, HeartBeatClient.handle]
    split
    · exact ⟨[], (List.append_nil _).symm, nofun⟩
    · split
      · split
        · exact ⟨[_], rfl, by simp⟩
        · exact ⟨[.removeClient], rfl, fun _ => ⟨trivial, rfl⟩⟩
      · exact ⟨[], (List.append_nil _).symm, nofun⟩
  | removed => exact ⟨[], (List.append_nil _).symm, nofun⟩

theorem step_spec {s s' : HeartBeatHandler} {c : Client} {a : Act}
    (h : s.step (now, c, a) = some s') : s.clock ≤ now ∧ s'.clock = now ∧
      s'.client c = act s.maxTO (s.client c) now a ∧ ∀ c' ≠ c, s'.client c' = s.client c' := by
  simp only [step] at h
  split at h
  · rename_i hle
    cases h
    exact ⟨hle.1, rfl, Function.update_self .., fun c' hc => Function.update_of_ne hc ..⟩
  · cases h

theorem pending_of_run {C : HeartBeatHandler → Int × Client × Act → Prop} {maxTO : ℚ}
    {clock : Int} {s : HeartBeatHandler} (h : Trans.Run step C (init maxTO clock) s) :
    ∀ c, Pending (s.client c) s.clock := by
  refine h.invariant (I := fun s => ∀ c, Pending (s.client c) s.clock) (fun c => Pending.of_not rfl)
    fun s (now, c, a) s' hI _ hs c' => ?_
  obtain ⟨hle, hclock, hact, hother⟩ := step_spec hs
  rw [hclock]
  by_cases hc : c' = c
  · rw [hc, hact]
    exact ((hI c).later hle).act _ _
  · rw [hother c' hc]
    exact (hI c').later hle

/-- A step that asks for a removal is a pass over a client that is logged in and has left a
TestRequest unanswered for too long. -/
theorem justified_of_step {s s' : HeartBeatHandler} (hI : ∀ c, Pending (s.client c) s.clock)
    {c c' : Client} {a : Act} (hs : s.step (now, c, a) = some s')
    (hrem : (s'.client c').events = (s.client c').events ++ [.removeClient]) :
    a = .handle ∧ c' = c ∧ (s.client c).loggedIn = true ∧ Justified (s.client c) now := by
  obtain ⟨-, -, hact, hother⟩ := step_spec hs
  by_cases hc : c' = c
  · subst hc
    obtain ⟨es, hes, hmem⟩ := act_events s.maxTO (s.client c') now a
    rw [hact, hes, List.append_cancel_left_eq] at hrem
    obtain ⟨rfl, rfl⟩ := hmem (hrem ▸ List.mem_singleton_self _)
    obtain ⟨hin, hreq, hlate⟩ := handle_removeClient hes
    obtain ⟨t, id, hun, -, hsince, -⟩ := hI c' hreq
    exact ⟨rfl, rfl, hin, t, id, hun, by omega⟩
  · rw [hother c' hc] at hrem
    simp at hrem

/-- **Evictions are justified.** Only a pass over a logged-in client asks for its removal, and only
when a TestRequest sent to it more than its elapsing time ago is unanswered. In a run in which a
client answers every TestRequest in time, its removal is never asked for. -/
theorem eviction_justified (maxTO : ℚ) (clock : Int) :
    (∀ s, Trans.Reach step (init maxTO clock) s → ∀ now c a s', s.step (now, c, a) = some s' →
      ∀ c', (s'.client c').events = (s.client c').events ++ [.removeClient] →
        a = .handle ∧ c' = c ∧ (s.client c).loggedIn = true ∧ Justified (s.client c) now) ∧
    ∀ c s, Trans.Run step (InTime c) (init maxTO clock) s →
      .removeClient ∉ (s.client c).events := by
  refine ⟨fun s h now c a s' hs c' => justified_of_step (pending_of_run h) hs, fun c s h => ?_⟩
  refine h.invariant_with (I := fun s => .removeClient ∉ (s.client c).events)
    (J := fun s => ∀ c, Pending (s.client c) s.clock) List.not_mem_nil (fun _ => pending_of_run)
    fun s (now, c', a) s' hI hP hC hs hmem => ?_
  obtain ⟨-, -, hact, hother⟩ := step_spec hs
  by_cases hc : c = c'
  · subst hc
    obtain ⟨es, hes, hrem⟩ := act_events s.maxTO (s.client c) now a
    rw [← hact] at hes
    rw [hes, List.mem_append] at hmem
    obtain ⟨rfl, rfl⟩ := hrem (hmem.resolve_left hI)
    obtain ⟨-, -, -, t, id, ⟨before, after, hsplit, hnot⟩, hlate⟩ := justified_of_step hP hs hes
    exact hnot (hC rfl before t id after hsplit hlate)
  · rw [hother c hc] at hmem
    exact hI hmem

/-- A logon that asks for heartbeats every second. -/
def logonEach : Act := .logon (seconds 1) ⟨"FIX.4.2", 'A', 1, "C", "S"⟩ (.ok ⟨.none, 1⟩)

/-- A client that logs on and is sent a TestRequest two seconds later is evicted when it does not
answer it for another two; until then nobody asked for its removal. -/
theorem eviction_justified_run : ∃ s s' : HeartBeatHandler,
    Trans.Reach step (init 30 0) s ∧ s.step (seconds 5, 0, .handle) = some s' ∧
    (s'.client 0).events = (s.client 0).events ++ [.removeClient] ∧
    Justified (s.client 0) (seconds 5) ∧ .removeClient ∉ (s.client 0).events := by
  have h : ((step (init 30 0) (seconds 1, 0, logonEach)).bind fun s =>
      (s.step (seconds 3, 0, .handle)).bind fun s1 =>
        (s1.step (seconds 5, 0, .handle)).map fun s2 =>
          ((s.client 0).events, (s1.client 0).events, (s2.client 0).events)) =
      some ([.append (seconds 1) (.logon 1)],
        [.append (seconds 1) (.logon 1),
          .append (seconds 3) (.testRequest "1970-01-01 00:00:03")],
        [.append (seconds 1) (.logon 1),
          .append (seconds 3) (.testRequest "1970-01-01 00:00:03"), .removeClient]) := by
    decide +kernel
  simp only [Option.bind_eq_some_iff, Option.map_eq_some_iff, Prod.mk.injEq] at h
  obtain ⟨s, hs, s1, hs1, s2, hs2, he, he1, he2⟩ := h
  -- at the first pass no TestRequest has been sent
  have hin : InTime 0 s (seconds 3, 0, .handle) := fun _ before t id after hsplit _ => by
    have hm : .append t (.testRequest id) ∈ (s.client 0).events := by simp [hsplit]
    simp [he] at hm
  obtain ⟨hjust, hnone⟩ := eviction_justified 30 0
  have hrem : (s2.client 0).events = (s1.client 0).events ++ [.removeClient] := by rw [he2, he1]; rfl
  have hreach := ((Trans.Run.start.next trivial hs).next trivial hs1 :
    Trans.Reach step (init 30 0) s1)
  exact ⟨s1, s2, hreach, hs2, hrem, (hjust s1 hreach _ _ _ s2 hs2 0 hrem).2.2.2,
    hnone 0 s1 ((Trans.Run.start.next trivial hs).next hin hs1)⟩

end HeartBeatHandler

end Fix42

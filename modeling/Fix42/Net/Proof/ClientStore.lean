import Mathlib.Data.List.Nodup
import Fix42.Net.ClientStore

/-!
# Removal happens once

`ClientStore.removed_once`: in every run in which no removal is asked for twice (`FirstRequest`),
clients are `RemovedOnce`, and the first request that is a second one ends that. `not_removed_once`:
without the condition two units that find the same client gone have it removed twice, and the second
task erases the end iterator.
-/

namespace Fix42

namespace ClientStore

/-! ## The invariant -/

/-- The clients of an agenda have been made. -/
def Knows (s : ClientStore) (agenda : Agenda) : Prop := ∀ p ∈ agenda, p.1 < s.next

structure Inv (s : ClientStore) : Prop where
  asked : s.asked = s.erased ++ s.tasks
  nodup : s.asked.Nodup
  known : ∀ c ∈ s.asked, c < s.next
  clients : s.clients.Nodup
  mem : ∀ c, c ∈ s.clients ↔ c < s.next ∧ c ∉ s.erased
  defined : s.removal ≠ .undefined
  bound : ∀ c k, s.removal = .callbacks c k → k ≤ s.onRemove
  once : s.called.Nodup
  called : ∀ c k, (c, k) ∈ s.called ↔
    c ∈ s.finished ∧ k < s.onRemove ∨ ∃ j, s.removal = .callbacks c j ∧ k < j
  output : ∀ agenda ∈ s.output, s.Knows agenda
  input : s.Knows s.input
  heartBeat : ∀ agenda ∈ s.heartBeat, s.Knows agenda

theorem inv_init (onRemove : Nat) : (init onRemove).Inv where
  asked := rfl
  nodup := .nil
  known c h := by cases h
  clients := .nil
  mem c := by simp [init]
  defined := by simp [init]
  bound c k h := by cases h
  once := .nil
  called c k := by simp [init]
  output a h := by cases h
  input p h := by cases h
  heartBeat a h := by cases h

theorem Inv.removedOnce {s : ClientStore} (h : s.Inv) : s.RemovedOnce where
  defined := h.defined
  tasks := by
    have hnd := h.nodup
    rw [h.asked, List.nodup_append] at hnd
    refine ⟨hnd.2.1, fun c hc => (h.mem c).2 ⟨h.known c ?_, fun he => hnd.2.2 c he c hc rfl⟩⟩
    rw [h.asked]
    exact List.mem_append_right _ hc
  callbacks c hc k hk := List.count_eq_one_of_mem h.once ((h.called c k).2 (.inl ⟨hc, hk⟩))
  once c k := List.nodup_iff_count_le_one.1 h.once (c, k)
  socket c hc c' hf := ((h.mem c).1 (List.mem_of_find?_eq_some hf)).2 hc
  id c hc userId hf := ((h.mem c).1 (List.mem_of_find?_eq_some hf)).2 hc
  done ht hr c hc := by
    rw [h.asked, ht, List.append_nil, erased, hr] at hc
    exact hc

/-! ## Calls -/

theorem call_cases (s : ClientStore) (c : Client) (b : Bool) (k : Call) :
    (k ≠ .enqueue ∧ ∃ info, (s.call c b k).1 = { s with info }) ∨
    k = .enqueue ∧ (s.call c b k).1 = { s with tasks := s.tasks ++ [c], asked := s.asked ++ [c] } := by
  cases k with
  | enqueue => exact .inr ⟨rfl, rfl⟩
  | close | setShouldDisconnect | disconnect => exact .inl ⟨by simp, _, rfl⟩
  | isConnected | send | shouldDisconnect | process | heartBeat => exact .inl ⟨by simp, s.info, rfl⟩

/-- What the next call of an agenda does to the store, and whom what is left to do is about. -/
theorem advance_cases {s t : ClientStore} {b : Bool} {agenda rest : Agenda}
    (h : s.advance b agenda = some (t, rest)) : ∃ c k, agenda.head? = some (c, k) ∧
    (∀ p ∈ rest, p.1 = c ∨ p ∈ agenda) ∧
    ((k ≠ .enqueue ∧ ∃ info, t = { s with info }) ∨
    k = .enqueue ∧ t = { s with tasks := s.tasks ++ [c], asked := s.asked ++ [c] }) := by
  cases agenda with
  | nil => cases h
  | cons p agenda =>
    obtain ⟨c, k⟩ := p
    cases h
    refine ⟨c, k, rfl, fun p hp => ?_, s.call_cases c b k⟩
    rcases List.mem_append.1 hp with hp | hp
    · obtain ⟨k', -, rfl⟩ := List.mem_map.1 hp
      exact .inl rfl
    · exact .inr (List.mem_cons_of_mem _ hp)

/-- A first request. -/
theorem Inv.enqueue {s : ClientStore} (h : s.Inv) {c : Client} (hc : c < s.next) (hn : c ∉ s.asked) :
    ({ s with tasks := s.tasks ++ [c], asked := s.asked ++ [c] } : ClientStore).Inv where
  asked := by
    rw [h.asked, List.append_assoc]
    rfl
  nodup := List.nodup_append.2 ⟨h.nodup, List.nodup_singleton c, fun a ha b hb he =>
    hn (List.mem_singleton.1 hb ▸ he ▸ ha)⟩
  known a ha := by
    rcases List.mem_append.1 ha with ha | ha
    · exact h.known a ha
    · exact List.mem_singleton.1 ha ▸ hc
  clients := h.clients
  mem := h.mem
  defined := h.defined
  bound := h.bound
  once := h.once
  called := h.called
  output := h.output
  input := h.input
  heartBeat := h.heartBeat

/-- The next call of a unit keeps the invariant, and the rest of its agenda is about known clients. -/
theorem Inv.advance {s t : ClientStore} (h : s.Inv) {b : Bool} {agenda rest : Agenda}
    (ha : s.Knows agenda) (hc : ∀ p ∈ agenda.head?, p.2 = .enqueue → p.1 ∉ s.asked)
    (hs : s.advance b agenda = some (t, rest)) :
    t.Inv ∧ t.Knows rest ∧ t.output = s.output ∧ t.next = s.next := by
  obtain ⟨c, k, hhead, hrest, ⟨-, info, rfl⟩ | ⟨rfl, rfl⟩⟩ := advance_cases hs
  all_goals have hlt : c < s.next := ha (c, _) (List.mem_of_mem_head? hhead)
  all_goals have hknows : s.Knows rest := fun p hp => (hrest p hp).elim (fun he => he ▸ hlt) (ha p)
  · exact ⟨{ h with }, hknows, rfl, rfl⟩
  · exact ⟨h.enqueue hlt (hc _ hhead rfl), hknows, rfl, rfl⟩

/-! ## The steps -/

theorem inv_remove {s s' : ClientStore} (h : s.Inv) (hs : s.stepRemove = some s') : s'.Inv := by
  unfold stepRemove at hs
  split at hs
  · rename_i hr
    have herased : s.erased = s.finished := by simp [erased, hr]
    split at hs
    · cases hs
    · rename_i c tasks ht
      have hmem : c ∈ s.clients := h.removedOnce.tasks.2 c (by simp [ht])
      split at hs
      · cases hs
      · cases hs
        have hasked := h.asked
        rw [herased, ht] at hasked
        refine { h with
          asked := ?_
          clients := h.clients.erase c
          mem := fun a => ?_
          defined := by simp
          bound := ?_
          called := ?_ }
        · rw [hasked]
          simp [erased]
        · rw [h.clients.mem_erase_iff, h.mem a, herased]
          simp [erased]
          tauto
        · rintro _ _ ⟨⟩
          exact Nat.zero_le _
        · intro a k
          rw [h.called a k, hr]
          simp
  · rename_i c k hr
    split at hs
    · rename_i hk
      cases hs
      have hnd := h.nodup
      rw [h.asked, erased, hr] at hnd
      have hfresh : (c, k) ∉ s.called := fun hm => by
        rcases (h.called c k).1 hm with ⟨hf, -⟩ | ⟨j, hj, hlt⟩
        · simp only [List.append_assoc, List.singleton_append] at hnd
          exact (List.nodup_append.1 hnd).2.2 c hf c List.mem_cons_self rfl
        · rw [hr] at hj
          cases hj
          exact lt_irrefl _ hlt
      refine { h with
        asked := ?_, mem := ?_, defined := by simp, bound := ?_, once := ?_, called := ?_ }
      · rw [h.asked]
        simp [erased, hr]
      · intro a
        rw [h.mem a]
        simp [erased, hr]
      · rintro _ _ ⟨⟩
        exact hk
      · exact List.nodup_append.2 ⟨h.once, List.nodup_singleton _, fun p hp q hq he =>
          hfresh (List.mem_singleton.1 hq ▸ he ▸ hp)⟩
      · intro a j
        rw [List.mem_append, h.called a j, hr]
        simp
        grind
    · rename_i hk
      cases hs
      have hkn : k = s.onRemove := le_antisymm (h.bound c k hr) (not_lt.1 hk)
      refine { h with
        asked := ?_, mem := ?_, defined := by simp, bound := ?_, called := ?_ }
      · rw [h.asked]
        simp [erased, hr]
      · intro a
        rw [h.mem a]
        simp [erased, hr]
      · rintro _ _ ⟨⟩
      · intro a j
        rw [h.called a j, hr, hkn]
        simp
        grind
  · cases hs

theorem inv_step {s s' : ClientStore} {act : Act} (h : s.Inv) (hc : s.FirstRequest act)
    (hs : step s act = some s') : s'.Inv := by
  cases act with
  | accept =>
    simp only [step] at hs
    split at hs <;> cases hs
    have hlt : s.next ∉ s.clients := fun hm => lt_irrefl _ ((h.mem _).1 hm).1
    have hle : ∀ {c}, c < s.next → c < s.next + 1 := Nat.lt_succ_of_lt
    have hne : s.next ∉ s.erased := fun hm => lt_irrefl _
      (h.known s.next (h.asked ▸ List.mem_append_left _ hm))
    refine { h with
      known := fun c hc => hle (h.known c hc)
      clients := List.nodup_append.2 ⟨h.clients, List.nodup_singleton _, fun a ha b hb he =>
        hlt (List.mem_singleton.1 hb ▸ he ▸ ha)⟩
      mem := fun c => ?_
      output := fun a ha p hp => hle (h.output a ha p hp)
      input := fun p hp => hle (h.input p hp)
      heartBeat := fun a ha p hp => hle (h.heartBeat a ha p hp) }
    simp only [newClientSocket, List.mem_append, h.mem c, List.mem_singleton, Nat.lt_succ_iff_lt_or_eq]
    constructor
    · rintro (⟨h1, h2⟩ | rfl)
      · exact ⟨.inl h1, h2⟩
      · exact ⟨.inr rfl, hne⟩
    · rintro ⟨h1 | rfl, h2⟩
      · exact .inl ⟨h1, h2⟩
      · exact .inr rfl
  | login c userId | logout c =>
    simp only [step] at hs
    split at hs <;> cases hs
    exact { h with }
  | output c =>
    simp only [step] at hs
    split at hs <;> cases hs
    rename_i hlt
    refine { h with output := fun a ha => ?_ }
    rcases List.mem_append.1 ha with ha | ha
    · exact h.output a ha
    · rw [List.mem_singleton.1 ha]
      intro p hp
      rw [List.mem_singleton.1 hp]
      exact hlt
  | outputCall k b =>
    simp only [step] at hs
    split at hs
    · cases hs
    · rename_i agenda hk
      obtain ⟨⟨t, rest⟩, ht, rfl⟩ := Option.map_eq_some_iff.1 hs
      have hc' : ∀ p ∈ agenda.head?, p.2 = .enqueue → p.1 ∉ s.asked := fun p hp =>
        hc p (by simp [nextCall, hk, Option.mem_def.1 hp])
      obtain ⟨hinv, hrest, hout, hnext⟩ := h.advance (h.output _ (List.mem_of_getElem? hk)) hc' ht
      refine { hinv with output := fun a ha => ?_ }
      rcases List.mem_or_eq_of_mem_set ha with ha | rfl
      · intro p hp
        exact hnext ▸ h.output a ha p hp
      · exact hrest
  | pull c =>
    simp only [step] at hs
    split at hs
    · split at hs <;> cases hs
      rename_i c' hf
      have hm := ((h.mem c').1 (List.mem_of_find?_eq_some hf)).1
      refine { h with input := fun p hp => ?_ }
      rw [List.mem_singleton.1 hp]
      exact hm
    · cases hs
  | inputCall b =>
    obtain ⟨⟨t, rest⟩, ht, rfl⟩ := Option.map_eq_some_iff.1 hs
    obtain ⟨hinv, hrest, -, -⟩ := h.advance h.input hc ht
    exact { hinv with input := hrest }
  | apply =>
    simp only [step] at hs
    split at hs <;> cases hs
    refine { h with heartBeat := fun a ha p hp => ?_ }
    cases ha
    obtain ⟨c, hc, rfl⟩ := List.mem_map.1 hp
    exact ((h.mem c).1 hc).1
  | heartBeatCall b =>
    simp only [step] at hs
    split at hs
    · cases hs
    · rename_i agenda hk
      obtain ⟨⟨t, rest⟩, ht, rfl⟩ := Option.map_eq_some_iff.1 hs
      have hc' : ∀ p ∈ agenda.head?, p.2 = .enqueue → p.1 ∉ s.asked := fun p hp =>
        hc p (by simp [nextCall, hk, Option.mem_def.1 hp])
      obtain ⟨hinv, hrest, -, -⟩ := h.advance (h.heartBeat _ hk) hc' ht
      refine { hinv with heartBeat := fun a ha => ?_ }
      cases ha
      exact hrest
  | unlock =>
    simp only [step] at hs
    split at hs <;> cases hs
    exact { h with heartBeat := fun a ha => by cases ha }
  | remove => exact inv_remove h hs

/-! ## A second request -/

/-- The next call of a unit that asks again queues a task that will not find its client. -/
theorem Inv.advance_again {s t : ClientStore} (h : s.Inv) {b : Bool} {agenda rest : Agenda}
    {c : Client} (hhead : agenda.head? = some (c, .enqueue)) (hc : c ∈ s.asked)
    (hs : s.advance b agenda = some (t, rest)) :
    ¬ (t.tasks.Nodup ∧ ∀ c ∈ t.tasks, c ∈ t.clients) := by
  obtain ⟨c', k, hhead', -, ⟨hk, -⟩ | ⟨rfl, rfl⟩⟩ := advance_cases hs
  · rw [hhead] at hhead'
    cases hhead'
    exact absurd rfl hk
  rw [hhead] at hhead'
  cases hhead'
  rintro ⟨hnd, hmem⟩
  rw [h.asked, List.mem_append] at hc
  rcases hc with hc | hc
  · exact ((h.mem c).1 (hmem c (by simp))).2 hc
  · exact (List.nodup_append.1 hnd).2.2 c hc c (List.mem_singleton_self c) rfl

theorem Inv.again {s s' : ClientStore} {act : Act} (h : s.Inv) (hc : ¬ s.FirstRequest act)
    (hs : step s act = some s') : ¬ s'.RemovedOnce := by
  simp only [FirstRequest, not_forall, not_not] at hc
  obtain ⟨⟨c, k⟩, hp, rfl, hc⟩ := hc
  cases act with
  | outputCall k b =>
    obtain ⟨agenda, hk, hhead⟩ := Option.bind_eq_some_iff.1 hp
    simp only [step, hk] at hs
    obtain ⟨⟨t, rest⟩, ht, rfl⟩ := Option.map_eq_some_iff.1 hs
    exact fun hr => h.advance_again hhead hc ht hr.tasks
  | inputCall b =>
    obtain ⟨⟨t, rest⟩, ht, rfl⟩ := Option.map_eq_some_iff.1 hs
    exact fun hr => h.advance_again hp hc ht hr.tasks
  | heartBeatCall b =>
    obtain ⟨agenda, hk, hhead⟩ := Option.bind_eq_some_iff.1 hp
    simp only [step, hk] at hs
    obtain ⟨⟨t, rest⟩, ht, rfl⟩ := Option.map_eq_some_iff.1 hs
    exact fun hr => h.advance_again hhead hc ht hr.tasks
  | accept | login | logout | output | pull | apply | unlock | remove => cases hp

/-- **A client is removed once** in every run in which no unit asks for a removal that was asked for
before: every task finds its client, its callbacks run once, and no lookup gives the client
afterwards. A step keeps this if and only if it meets that condition. -/
theorem removed_once {onRemove : Nat} {s : ClientStore}
    (h : Trans.Run step FirstRequest (init onRemove) s) : s.RemovedOnce ∧
      ∀ act s', step s act = some s' → (s'.RemovedOnce ↔ s.FirstRequest act) := by
  have hinv : s.Inv := h.invariant (inv_init onRemove) fun s act s' hI hc hs => inv_step hI hc hs
  refine ⟨hinv.removedOnce, fun act s' hs => ⟨fun hr => ?_, fun hc => ?_⟩⟩
  · by_contra hc
    exact hinv.again hc hs hr
  · exact (inv_step hinv hc hs).removedOnce

/-- A client closes its connection: the input unit has it removed, and its one callback runs. -/
theorem removed_once_run :
    let acts : List Act := [.accept, .login 0 "A", .pull 0, .inputCall true, .inputCall true,
      .inputCall true, .inputCall true, .remove, .remove, .remove]
    ∃ s, Trans.exec step FirstRequest (init 1) acts = some s ∧ s.finished = [0] ∧
      s.called = [(0, 0)] ∧ s.RemovedOnce := by
  intro acts
  have hrun : (Trans.exec step FirstRequest (init 1) acts).map
      (fun s => decide (s.finished = [0] ∧ s.called = [(0, 0)])) = some true := by
    decide +kernel
  obtain ⟨s, hs, hv⟩ := Option.map_eq_some_iff.1 hrun
  obtain ⟨hf, hcalled⟩ := of_decide_eq_true hv
  exact ⟨s, hs, hf, hcalled, (removed_once (.of_exec .start hs)).1⟩

/-- A client closes its connection while a message to it is on its way: the read and the send both
have it removed, and the second task erases the end iterator. -/
theorem not_removed_once :
    ¬ ∀ (onRemove : Nat) (s : ClientStore), Trans.Reach step (init onRemove) s → s.RemovedOnce := by
  intro hall
  let acts : List Act := [.accept, .login 0 "A", .output 0, .outputCall 0 true, .outputCall 0 false,
    .pull 0, .inputCall true, .inputCall true, .inputCall true, .inputCall true, .outputCall 0 true,
    .outputCall 0 true, .outputCall 0 true, .remove, .remove, .remove, .remove]
  have hrun : (Trans.exec step (fun _ _ => True) (init 1) acts).map
      (fun s => decide (s.removal = .undefined)) = some true := by
    decide +kernel
  obtain ⟨s, hs, hv⟩ := Option.map_eq_some_iff.1 hrun
  exact (hall _ s (.of_exec .start hs)).defined (of_decide_eq_true hv)

end ClientStore

end Fix42

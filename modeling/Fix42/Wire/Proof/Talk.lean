import Fix42.Wire.Proof.RoundTrip
import Fix42.Wire.Talk

/-!
# Rejects without end

A message to a client that is not logged in has an empty `TargetCompID`, which the client refuses
(`client_refuses`); and the server refuses every reject of such a client (`server_refuses`). So one
message starts an exchange of rejects that does not end (`reject_storm`).
-/

namespace Fix42

namespace Wire

open Getline

variable {H : Type*} {fix : FixHeader H} {n : BitVec 32} {s : Parse H}

/-! ## A field without a value -/

/-- The reject of a message that could not be taken apart before its sequence number. -/
def unparsed (n : BitVec 32) : SessionReject :=
  { refSeqNum := n, refMsgType := none, sessionRejectReason := .undefineTag,
    text := "Unable to parse header key-value" }

theorem split_render_append {fs : List Field} (h : ∀ f ∈ fs, soh ∉ f.value) (y : Bytes) :
    split soh (fs.flatMap Field.render ++ y) = fs.map Field.piece ++ split soh y := by
  induction fs with
  | nil => rfl
  | cons f fs ih =>
    rw [List.flatMap_cons, List.append_assoc, render_eq,
      split_append_cons (soh_not_mem_piece (h f List.mem_cons_self)),
      ih fun f hf => h f (List.mem_cons_of_mem _ hf), List.map_cons, List.cons_append]

theorem insertAll_append {fs gs : List Field} {h h' : H}
    (hi : fix.insertAll (fs ++ gs) h = some h') :
    ∃ k, fix.insertAll fs h = some k := by
  induction fs generalizing h with
  | nil => exact ⟨h, rfl⟩
  | cons f fs ih =>
    unfold FixHeader.insertAll
    rw [List.cons_append, FixHeader.insertAll] at hi
    split at hi
    · exact ih hi
    · cases hi

theorem seqNum_ne : ∀ t ∈ headerTags, t ≠ tag.msgSeqNum →
    BitVec.ofNat 16 tag.msgSeqNum ≠ BitVec.ofNat 16 t := by decide

/-- Fields of the header in front of the sequence number. -/
theorem parse_before_seqNum {fs : List Field} {h : H} (hclean : ∀ f ∈ fs, Clean f.value)
    (htags : ∀ f ∈ fs, f.tag ∈ headerTags ∧ f.tag ≠ tag.msgSeqNum) (hs : s.headerComplet = false)
    (hseq : BitVec.ofNat 16 tag.msgSeqNum ∉ s.tagset) (hi : fix.insertAll fs s.header = some h) :
    ∃ s', parse fix n (fs.map Field.piece) s = .ok s' ∧
      BitVec.ofNat 16 tag.msgSeqNum ∉ s'.tagset := by
  induction fs generalizing s with
  | nil => exact ⟨s, rfl, hseq⟩
  | cons f fs ih =>
    unfold FixHeader.insertAll at hi
    split at hi
    · rename_i header hinsert
      obtain ⟨htag, hne⟩ := htags f List.mem_cons_self
      let t : Parse H := { s with
        header, headerComplet := false, checksum := s.checksum + countCheckSum f.piece,
        lastChecksum := countCheckSum f.piece,
        tagset := BitVec.ofNat 16 f.tag :: s.tagset }
      have hp : parsePiece fix n s f.piece = .ok t := by
        simp only [parsePiece, split_piece (hclean f List.mem_cons_self), hs, hinsert,
          stoi_headerTags f.tag htag]
        rfl
      have hseq' : BitVec.ofNat 16 tag.msgSeqNum ∉ t.tagset := by
        intro hmem
        rcases List.mem_cons.1 hmem with he | hmem
        · exact seqNum_ne f.tag htag hne he
        · exact hseq hmem
      obtain ⟨s', h', hs'⟩ := ih (s := t) (fun g hg => hclean g (List.mem_cons_of_mem _ hg))
        (fun g hg => htags g (List.mem_cons_of_mem _ hg)) rfl hseq' hi
      refine ⟨s', ?_, hs'⟩
      rw [List.map_cons, parse_cons_eq, hp]
      exact h'
    · cases hi

/-- A header field without a value is refused, whatever comes after it. -/
theorem empty_field_refused {fs : List Field} {h : H} (hclean : ∀ f ∈ fs, Clean f.value)
    (htags : ∀ f ∈ fs, f.tag ∈ headerTags ∧ f.tag ≠ tag.msgSeqNum)
    (hi : fix.insertAll fs fix.init = some h) (t : Nat) (y : Bytes) :
    buildHeader fix n (fs.flatMap Field.render ++ (Field.render ⟨t, []⟩ ++ y)) =
      .error (.reject (unparsed n)) := by
  have hsplit : split soh (fs.flatMap Field.render ++ (Field.render ⟨t, []⟩ ++ y)) =
      fs.map Field.piece ++ Field.piece ⟨t, []⟩ :: split soh y := by
    rw [split_render_append fun f hf => (hclean f hf).2.1, render_eq,
      split_append_cons (soh_not_mem_piece (by simp))]
  obtain ⟨s', hs', hseq⟩ := parse_before_seqNum (n := n) (s := Parse.new fix) hclean htags rfl
    (by simp [Parse.new]) hi
  have hone : split equals (Field.piece ⟨t, []⟩) = [toChars t] := by
    rw [Field.piece, split_append_cons (clean_toChars t).2.2]
    rfl
  have hpiece : parsePiece fix n s' (Field.piece ⟨t, []⟩) = .error (.reject (unparsed n)) := by
    simp only [parsePiece, hone, buildRejectFromError, quoted, if_neg hseq]
    rfl
  have hparse : parse fix n (fs.map Field.piece ++ Field.piece ⟨t, []⟩ :: split soh y)
      (Parse.new fix) = .error (.reject (unparsed n)) := by
    have hrest : parse fix n (Field.piece ⟨t, []⟩ :: split soh y) s' =
        .error (.reject (unparsed n)) := by
      rw [parse_cons_eq, hpiece]
      rfl
    rw [parse, List.foldlM_append]
    show (parse fix n (fs.map Field.piece) (Parse.new fix) >>= fun s =>
      parse fix n (Field.piece ⟨t, []⟩ :: split soh y) s) = _
    rw [hs']
    exact hrest
  unfold buildHeader
  rw [hsplit, hparse]
  rfl

/-! ## The two refusals -/

theorem unparsed_fields (code : Reason → Nat) (n : BitVec 32) :
    (∀ f ∈ (unparsed n).fields code, Clean f.value) ∧
      ∀ f ∈ (unparsed n).fields code, f.tag ∉ headerTags := by
  have htext : Clean (ascii (unparsed n).text) := by
    show Clean (ascii "Unable to parse header key-value")
    decide
  constructor
  · intro f hf
    simp only [SessionReject.fields, unparsed, Option.toList_none, List.map_nil, List.append_nil,
      List.cons_append, List.nil_append, List.mem_cons, List.not_mem_nil, or_false] at hf
    rcases hf with rfl | rfl | rfl
    · exact clean_toChars _
    · exact clean_toChars _
    · exact htext
  · intro f hf
    simp only [SessionReject.fields, unparsed, Option.toList_none, List.map_nil, List.append_nil,
      List.cons_append, List.nil_append, List.mem_cons, List.not_mem_nil, or_false] at hf
    rcases hf with rfl | rfl | rfl
    · show tag.refSeqNum ∉ headerTags
      decide
    · show tag.sessionRejectReason ∉ headerTags
      decide
    · show tag.text ∉ headerTags
      decide

/-- What is sent is the fields of the header, then the body, then the checksum. -/
theorem send_eq (hfix : fix.Lawful) (header : Header) (input : Queued) :
    send fix header input = header.fields.flatMap Field.render ++ (input.message ++
      Field.render (trailer (header.fields.flatMap Field.render ++ input.message))) := by
  have h : ascii "10=" = toChars tag.checkSum ++ [equals] := by decide
  simp [send, addCheckSum, hfix.render, trailer, Field.render, h]

/-- A message is refused at a field without a value if a header that is clean begins with the same
fields. -/
theorem refused_at (hfix : fix.Lawful) (whole : Header) (fs : List Field) {header : Header}
    {input : Queued} {gs ks : List Field} {t : Nat} (hfields : header.fields = fs ++ ⟨t, []⟩ :: gs)
    (hwhole : whole.fields = fs ++ ks) (hclean : ∀ f ∈ whole.fields, Clean f.value)
    (htags : ∀ f ∈ fs, f.tag ≠ tag.msgSeqNum) :
    buildHeader fix n (send fix header input) = .error (.reject (unparsed n)) := by
  obtain ⟨h, hi, -⟩ := hfix.takes whole hclean
  have hmem : ∀ f ∈ fs, f ∈ whole.fields := by
    intro f hf
    rw [hwhole]
    exact List.mem_append_left _ hf
  rw [hwhole] at hi
  obtain ⟨k, hk⟩ := insertAll_append hi
  rw [send_eq hfix, hfields, List.flatMap_append, List.flatMap_cons, List.append_assoc,
    List.append_assoc]
  apply empty_field_refused
  · exact fun f hf => hclean f (hmem f hf)
  · exact fun f hf => ⟨List.mem_map_of_mem (f := Field.tag) (hmem f hf), htags f hf⟩
  · exact hk

theorem header_clean {sender target : Bytes} {seqNum : BitVec 32} {time : SendingTime} {input : Queued}
    (hsender : Clean sender) (htarget : Clean target) (htype : Clean [input.msgType]) :
    ∀ f ∈ (fillHeader sender target seqNum time input).fields, Clean f.value := by
  intro f hf
  simp only [Header.fields, List.mem_cons, List.not_mem_nil, or_false] at hf
  rcases hf with rfl | rfl | rfl | rfl | rfl | rfl | rfl
  · show Clean (ascii "FIX.4.2")
    decide
  · exact clean_toChars _
  · exact htype
  · exact hsender
  · exact htarget
  · exact clean_toChars _
  · exact clean_toFix time

/-- A message with an empty id, of either side, is refused. -/
theorem empty_id_refused (hfix : fix.Lawful) {sender target : Bytes} {seqNum : BitVec 32}
    {time : SendingTime} {input : Queued} (htype : Clean [input.msgType])
    (hid : sender = [] ∨ Clean sender ∧ target = []) :
    buildHeader fix n (send fix (fillHeader sender target seqNum time input) input) =
      .error (.reject (unparsed n)) := by
  rcases hid with rfl | ⟨hsender, rfl⟩
  · apply refused_at hfix (fillHeader (ascii "A") (ascii "A") seqNum time input)
      [⟨tag.beginString, ascii "FIX.4.2"⟩,
        ⟨tag.bodyLength, toChars (BitVec.ofNat 32 input.message.length).toNat⟩,
        ⟨tag.msgType, [input.msgType]⟩]
    · rfl
    · rfl
    · exact header_clean (by decide) (by decide) htype
    · simp [tag.beginString, tag.bodyLength, tag.msgType, tag.msgSeqNum]
  · apply refused_at hfix (fillHeader sender sender seqNum time input)
      [⟨tag.beginString, ascii "FIX.4.2"⟩,
        ⟨tag.bodyLength, toChars (BitVec.ofNat 32 input.message.length).toNat⟩,
        ⟨tag.msgType, [input.msgType]⟩, ⟨tag.senderCompId, sender⟩]
    · rfl
    · rfl
    · exact header_clean hsender hsender htype
    · simp [tag.beginString, tag.bodyLength, tag.msgType, tag.senderCompId, tag.msgSeqNum]

theorem clean_reject : Clean [(51 : UInt8)] := by decide

/-- The client refuses what the server sends to somebody without a user id. -/
theorem client_refuses (hfix : fix.Lawful) {provider : Bytes} (hprovider : Clean provider)
    (client : BitVec 64) (seqNum : BitVec 32) (time : SendingTime) {input : Queued}
    (htype : Clean [input.msgType]) :
    Client.answer fix client (send fix (Server.header provider [] seqNum time input) input) =
      .reject (unparsed (client.setWidth 32)) := by
  unfold Client.answer Client.buildHeader Server.header
  rw [empty_id_refused hfix htype (.inr ⟨hprovider, rfl⟩)]

/-- The server refuses the reject of a client that is not logged in. -/
theorem server_refuses (hfix : fix.Lawful) (code : Reason → Nat) {provider userId : Bytes}
    (hprovider : Clean provider) (huser : userId = [] ∨ Clean userId) (server : BitVec 32)
    (seqNum : BitVec 64) (time : SendingTime) (n : BitVec 32) :
    ∃ r, Server.answer fix provider server (send fix
      (Client.header provider userId seqNum time ((unparsed n).queued fix code))
      ((unparsed n).queued fix code)) = .reject r := by
  set input := (unparsed n).queued fix code with hinput
  have htype : Clean [input.msgType] := clean_reject
  rcases huser with rfl | huser
  · refine ⟨unparsed server, ?_⟩
    unfold Server.answer Server.buildHeader Client.header
    rw [empty_id_refused hfix htype (.inl rfl)]
  · set header := Client.header provider userId seqNum time input with hheader
    have hclean : ∀ f ∈ header.fields, Clean f.value := header_clean huser hprovider htype
    have hsend : send fix header input =
        addCheckSum ((header.fields ++ (unparsed n).fields code).flatMap Field.render) := by
      rw [send, hfix.render, List.flatMap_append, hinput, SessionReject.queued, hfix.render]
    obtain ⟨h, hb, hvalues⟩ := sent_forwarded hfix server (unparsed_fields code n).2 hclean
      (unparsed_fields code n).1
    have hbegin : fix.value h (toChars tag.beginString) = ascii "FIX.4.2" :=
      hvalues ⟨tag.beginString, ascii "FIX.4.2"⟩ (by
        simp [hheader, Client.header, fillHeader, Header.fields])
    have hmsgType : fix.value h (toChars tag.msgType) = ascii "3" :=
      hvalues ⟨tag.msgType, [51]⟩ (by
        simp [hheader, Client.header, fillHeader, Header.fields, hinput, SessionReject.queued])
    have htarget : fix.value h (toChars tag.targetCompId) = provider :=
      hvalues ⟨tag.targetCompId, provider⟩ (by
        simp [hheader, Client.header, fillHeader, Header.fields])
    have hposition : Server.verifyPositionValue fix h = none := by
      unfold Server.verifyPositionValue
      rw [hbegin, hmsgType, if_neg (not_not.2 rfl), if_pos (by decide)]
    have hspecific : Server.verifyUserSpecific fix provider h = none := by
      unfold Server.verifyUserSpecific
      rw [htarget, if_neg (not_not.2 rfl)]
    refine ⟨Server.requireLogin fix h, ?_⟩
    unfold Server.answer Server.buildHeader
    rw [hsend, hb]
    dsimp only
    rw [hposition, hspecific]
    dsimp only [Option.or]
    rw [hmsgType, if_neg (by decide)]

/-! ## The exchange -/

/-- A message on its way that will be refused. -/
inductive Refused (cfg : TalkConfig H) : Talk → Prop
  | toClient (client : BitVec 64) (server seqNum : BitVec 32) (time : SendingTime) (input : Queued)
      (type : Clean [input.msgType]) :
      Refused cfg ⟨.toClient (send cfg.fix (Server.header cfg.provider [] seqNum time input) input),
        client, server⟩
  | toServer (client seqNum : BitVec 64) (server : BitVec 32) (time : SendingTime) (n : BitVec 32) :
      Refused cfg ⟨.toServer (send cfg.fix
        (Client.header cfg.provider cfg.userId seqNum time ((unparsed n).queued cfg.fix cfg.code))
        ((unparsed n).queued cfg.fix cfg.code)), client, server⟩

/-- How often the client and the server answer a row of messages. -/
def Flight.answers : Flight → Nat → Nat × Nat
  | .toClient _, n => ((n + 1) / 2, n / 2)
  | .toServer _, n => (n / 2, (n + 1) / 2)

variable {cfg : TalkConfig H}

theorem add_two_mul {w : Nat} (x : BitVec w) (k : Nat) :
    x + BitVec.ofNat w (2 * (k + 1)) = x + 2 + BitVec.ofNat w (2 * k) := by
  rw [Nat.mul_succ, BitVec.ofNat_add, BitVec.add_comm (BitVec.ofNat w (2 * k)), ← BitVec.add_assoc]
  rfl

theorem step_refused (hfix : cfg.fix.Lawful) (hprovider : Clean cfg.provider)
    (huser : cfg.userId = [] ∨ Clean cfg.userId) {t : Talk} (h : Refused cfg t) (time : SendingTime) :
    ∃ t', t.step cfg time = some t' ∧ Refused cfg t' ∧ ∀ n,
      t.client + BitVec.ofNat 64 (2 * (t.flight.answers (n + 1)).1) =
        t'.client + BitVec.ofNat 64 (2 * (t'.flight.answers n).1) ∧
      t.server + BitVec.ofNat 32 (2 * (t.flight.answers (n + 1)).2) =
        t'.server + BitVec.ofNat 32 (2 * (t'.flight.answers n).2) := by
  cases h with
  | toClient client server seqNum sent input type =>
    have hanswer := client_refuses hfix hprovider client seqNum sent type
    refine ⟨_, ?_, .toServer (client + 2) (client + 1) server time (client.setWidth 32), fun n => ?_⟩
    · simp only [Talk.step, hanswer]
    have hn : (n + 1 + 1) / 2 = n / 2 + 1 := by omega
    simp only [Flight.answers, hn, add_two_mul, and_self]
  | toServer client seqNum server sent n =>
    obtain ⟨r, hanswer⟩ := server_refuses hfix cfg.code hprovider huser server seqNum sent n
    refine ⟨_, ?_, .toClient client (server + 2) (server + 1) time (r.queued cfg.fix cfg.code)
      clean_reject, fun n => ?_⟩
    · simp only [Talk.step, hanswer]
    have hn : (n + 1 + 1) / 2 = n / 2 + 1 := by omega
    simp only [Flight.answers, hn, add_two_mul, and_self]

theorem run_refused (hfix : cfg.fix.Lawful) (hprovider : Clean cfg.provider)
    (huser : cfg.userId = [] ∨ Clean cfg.userId) {t : Talk} (h : Refused cfg t)
    (times : List SendingTime) :
    ∃ t', t.run cfg times = some t' ∧ Refused cfg t' ∧
      t'.client = t.client + BitVec.ofNat 64 (2 * (t.flight.answers times.length).1) ∧
      t'.server = t.server + BitVec.ofNat 32 (2 * (t.flight.answers times.length).2) := by
  induction times generalizing t with
  | nil =>
    refine ⟨t, rfl, h, ?_, ?_⟩
    · cases h <;> simp [Flight.answers]
    · cases h <;> simp [Flight.answers]
  | cons time times ih =>
    obtain ⟨u, hu, hrefused, hcount⟩ := step_refused hfix hprovider huser h time
    obtain ⟨t', ht', hrefused', hclient, hserver⟩ := ih hrefused
    refine ⟨t', ?_, hrefused', ?_, ?_⟩
    · rw [Talk.run, hu]
      exact ht'
    · rw [hclient, List.length_cons, (hcount times.length).1]
    · rw [hserver, List.length_cons, (hcount times.length).2]

/-- **Rejects without end**: from one message of the server to a client that is not logged in, whatever
it says, each side answers the other with a reject as long as the connection lasts, and both use up two
numbers for each of them. -/
theorem reject_storm (cfg : TalkConfig H) (hfix : cfg.fix.Lawful) (hprovider : Clean cfg.provider)
    (huser : cfg.userId = [] ∨ Clean cfg.userId) (input : Queued) (htype : Clean [input.msgType])
    (seqNum : BitVec 32) (time : SendingTime) (client : BitVec 64) (server : BitVec 32)
    (times : List SendingTime) :
    let data := send cfg.fix (Server.header cfg.provider [] seqNum time input) input
    ∃ t, Talk.run cfg ⟨.toClient data, client, server⟩ times = some t ∧
      t.client = client + BitVec.ofNat 64 (2 * ((times.length + 1) / 2)) ∧
      t.server = server + BitVec.ofNat 32 (2 * (times.length / 2)) := by
  intro data
  obtain ⟨t, ht, -, hclient, hserver⟩ := run_refused hfix hprovider huser
    (.toClient client server seqNum time input htype) times
  exact ⟨t, ht, hclient, hserver⟩

/-- A thousand messages after a reject, with a client that has an id of its own. -/
theorem reject_storm_run :
    ∃ t, Talk.run ⟨FixHeader.table, fun _ => 3, ascii "EX", ascii "A"⟩
      ⟨.toClient (send FixHeader.table
        (Server.header (ascii "EX") [] 2 midnight unparsableInput) unparsableInput), 2, 2⟩
      (List.replicate 1000 midnight) = some t ∧ t.client = 1002 ∧ t.server = 1002 := by
  have h := reject_storm ⟨FixHeader.table, fun _ => 3, ascii "EX", ascii "A"⟩ table_lawful
    (by decide) (.inr (by decide)) unparsableInput (by decide) 2 midnight 2 2
    (List.replicate 1000 midnight)
  rw [List.length_replicate] at h
  exact h

end Wire

end Fix42

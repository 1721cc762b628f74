import Fix42.Wire.Grammar
import Fix42.Wire.Proof.Framing

/-!
# What the grammar of a frame keeps

A forwarded message is read from the pairs of its frame (`readFrom_pairs`). The pairs give the frame
back if and only if no field ends with `=` and the frame with SOH (`faithful_iff`): `getline` drops an
empty piece at the end, so neither is missed where it stands or noticed where it does not.
-/

namespace Fix42

namespace Wire

open Getline

variable {H : Type*} {fix : FixHeader H} {n : BitVec 32} {s s' : Parse H}

/-! ## The pairs of a parse -/

theorem pair?_eq {p k v : Bytes} (h : split equals p = [k, v]) : pair? p = some (k, v) := by
  simp only [pair?, h]

theorem pairs_complete {ps : List Bytes} (hs : s.headerComplet = true)
    (h : parse fix n ps s = .ok s') :
    s'.map = s.map ++ ps.filterMap pair? ∧ s'.header = s.header := by
  induction ps generalizing s with
  | nil =>
    cases h
    exact ⟨(List.append_nil _).symm, rfl⟩
  | cons p ps ih =>
    obtain ⟨t, hp, h⟩ := parse_cons h
    obtain ⟨k, v, hkv, hacc⟩ := parsePiece_spec hp
    cases hacc with
    | body _ hc hheader hm =>
      obtain ⟨hmap, hheader'⟩ := ih hc h
      refine ⟨?_, hheader'.trans hheader⟩
      rw [hmap, hm, List.filterMap_cons_some (pair?_eq hkv), List.append_assoc]
      rfl
    | first hc => simp [hs] at hc
    | header hc => simp [hs] at hc

/-- The pairs within the header are taken, the one that ends it is reported. -/
theorem pairs_open {ps : List Bytes} (hs : s.headerComplet = false) (hm : s.map = [])
    (h : parse fix n ps s = .ok s') (hs' : s'.headerComplet = true) :
    ∃ header taken, ps.filterMap pair? = header ++ s'.map ∧ fix.Takes header s.header taken ∧
      ∀ kv, s'.map.head? = some kv → fix.tryInsert kv.1 kv.2 taken = (.ok false, s'.header) := by
  induction ps generalizing s with
  | nil =>
    cases h
    rw [hs] at hs'
    cases hs'
  | cons p ps ih =>
    obtain ⟨t, hp, h⟩ := parse_cons h
    obtain ⟨k, v, hkv, hacc⟩ := parsePiece_spec hp
    rw [List.filterMap_cons_some (pair?_eq hkv)]
    cases hacc with
    | body hc => simp [hs] at hc
    | first _ hc hi _ hm' =>
      obtain ⟨hmap, hheader⟩ := pairs_complete hc h
      rw [hm', hm, List.nil_append] at hmap
      refine ⟨[], s.header, ?_, .nil, fun kv hkv => ?_⟩
      · rw [hmap]
        rfl
      · rw [hmap] at hkv
        cases hkv
        rw [hheader]
        exact hi
    | header _ hc hi hm' =>
      obtain ⟨header, taken, hpairs, htakes, hreported⟩ := ih hc (hm'.trans hm) h
      refine ⟨(k, v) :: header, taken, ?_, .cons hi htakes, hreported⟩
      rw [hpairs]
      rfl

theorem readFrom_pairs {data : Bytes} {x : H × MapMessage} (h : buildHeader fix n data = .ok x) :
    ReadFrom fix (parsedPairs data) x := by
  obtain ⟨s, hs, hheader, v, hmap, -⟩ := buildHeader_spec h
  have hc : s.headerComplet = true := by
    by_contra hc
    have hnil := parse_open (fun _ => rfl) hs (by simpa using hc)
    simp [hmap] at hnil
  obtain ⟨header, taken, hpairs, htakes, hreported⟩ := pairs_open rfl rfl hs hc
  rw [hmap] at hpairs hreported
  refine ⟨header, v, taken, hpairs, htakes, fun kv hkv => ?_⟩
  rw [hheader]
  exact hreported kv hkv

/-! ## The frame back from its pairs -/

/-- The characters of a pair, without its SOH. -/
def pairPiece (kv : Bytes × Bytes) : Bytes := kv.1 ++ equals :: kv.2

theorem render_pairs (kvs : List (Bytes × Bytes)) :
    kvs.flatMap renderPair = join soh (kvs.map pairPiece) := by
  rw [join, List.flatMap_map]
  refine List.flatMap_congr fun kv _ => ?_
  simp [renderPair, pairPiece]

/-- A piece of two parts is its pair if no `=` was dropped behind it. -/
theorem pairPiece_eq {p k v : Bytes} (h : split equals p = [k, v]) :
    pairPiece (k, v) = p ↔ p.getLast? ≠ some equals := by
  rcases split_eq_pair h with ⟨rfl, -, hv, hne⟩ | ⟨rfl, -, -⟩
  · refine iff_of_true rfl fun hlast => hv ?_
    rw [List.getLast?_append_cons, List.getLast?_cons_of_ne_nil hne] at hlast
    exact List.mem_of_getLast? hlast
  · refine iff_of_false (fun he => ?_) fun hlast => hlast ?_
    · simp [pairPiece] at he
    · rw [List.getLast?_append_cons, ← List.cons_append, List.getLast?_concat]

theorem mem_parsedPairs {data k v : Bytes} (h : (k, v) ∈ parsedPairs data) :
    ∃ p ∈ split soh data, split equals p = [k, v] := by
  obtain ⟨p, hp, hpair⟩ := List.mem_filterMap.1 h
  refine ⟨p, hp, ?_⟩
  unfold pair? at hpair
  split at hpair
  · rename_i hkv
    cases hpair
    exact hkv
  · cases hpair

/-- No pair holds a SOH. -/
theorem soh_not_mem_pairPiece {data : Bytes} {kv : Bytes × Bytes} (h : kv ∈ parsedPairs data) :
    soh ∉ pairPiece kv := by
  obtain ⟨p, hp, hkv⟩ := mem_parsedPairs h
  have hsoh := not_mem_of_mem_split hp
  intro hmem
  rcases List.mem_append.1 hmem with hk | hv
  · exact hsoh (mem_of_mem_split (hkv ▸ List.mem_cons_self) hk)
  · rcases List.mem_cons.1 hv with heq | hv
    · revert heq
      decide
    · exact hsoh (mem_of_mem_split (hkv ▸ List.mem_cons_of_mem _ List.mem_cons_self) hv)

/-- The pieces of a frame whose pieces are all its pairs. -/
theorem pieces_eq {data : Bytes} (h : ∀ p ∈ split soh data, (split equals p).length = 2)
    (hlast : ∀ p ∈ split soh data, p.getLast? ≠ some equals) :
    (parsedPairs data).map pairPiece = split soh data := by
  unfold parsedPairs
  generalize split soh data = ps at h hlast
  induction ps with
  | nil => rfl
  | cons p ps ih =>
    obtain ⟨k, v, hkv⟩ := List.length_eq_two.1 (h p List.mem_cons_self)
    rw [List.filterMap_cons_some (pair?_eq hkv), List.map_cons,
      (pairPiece_eq hkv).2 (hlast p List.mem_cons_self),
      ih (fun q hq => h q (List.mem_cons_of_mem _ hq))
        fun q hq => hlast q (List.mem_cons_of_mem _ hq)]

/-- Nothing is lost of a forwarded frame but the SOH that ends it and a `=` that ends a field. -/
theorem faithful_iff {data : Bytes} {x : H × MapMessage} (h : buildHeader fix n data = .ok x) :
    Faithful data ↔ Closed data := by
  have hpieces : ∀ p ∈ split soh data, (split equals p).length = 2 := fun p hp => length_piece h hp
  rw [Faithful, render_pairs]
  constructor
  · intro hdata
    have hsplit : split soh data = (parsedPairs data).map pairPiece := by
      conv => lhs; rw [← hdata]
      refine split_join fun p hp => ?_
      obtain ⟨kv, hkv, rfl⟩ := List.mem_map.1 hp
      exact soh_not_mem_pairPiece hkv
    refine ⟨?_, fun p hp => ?_⟩
    · obtain ⟨header, v, -, hpairs, -⟩ := readFrom_pairs h
      rw [← hdata]
      refine getLast?_join fun hnil => ?_
      simp [hpairs] at hnil
    · obtain ⟨k, v, hkv⟩ := List.length_eq_two.1 (hpieces p hp)
      rw [hsplit] at hp
      obtain ⟨⟨k', v'⟩, hmem, rfl⟩ := List.mem_map.1 hp
      obtain ⟨q, -, hq⟩ := mem_parsedPairs hmem
      have hk' : equals ∉ k' := not_mem_of_mem_split (hq ▸ List.mem_cons_self)
      have hv' : equals ∉ v' :=
        not_mem_of_mem_split (hq ▸ List.mem_cons_of_mem _ List.mem_cons_self)
      rw [← pairPiece_eq hkv]
      rw [pairPiece, split_append_cons hk'] at hkv
      obtain ⟨rfl, hv⟩ := List.cons.inj hkv
      obtain ⟨-, ⟨rfl, -, -⟩ | ⟨r, rfl, -⟩⟩ := split_eq_cons hv
      · rfl
      · simp at hv'
  · rintro ⟨hclosed, hlast⟩
    rw [pieces_eq hpieces hlast, join_split hclosed]

/-- **The grammar of a frame**: the pairs that a forwarded message is read from give its frame back
byte for byte if and only if the frame ends with SOH and no field of it with `=`. Among such frames
each is read from pairs of its own. -/
theorem frame_grammar (fix : FixHeader H) (seqNum : BitVec 32) (data : Bytes)
    (message : H × MapMessage) (h : Server.buildHeader fix seqNum data = .ok message) :
    ReadFrom fix (parsedPairs data) message ∧ (Faithful data ↔ Closed data) ∧
      ∀ seqNum' data' message', Server.buildHeader fix seqNum' data' = .ok message' →
        Closed data → Closed data' → (parsedPairs data' = parsedPairs data ↔ data' = data) := by
  refine ⟨readFrom_pairs h, faithful_iff h, ?_⟩
  intro seqNum' data' message' h' hclosed hclosed'
  constructor
  · intro hpairs
    calc data' = (parsedPairs data').flatMap renderPair := ((faithful_iff h').2 hclosed').symm
      _ = (parsedPairs data).flatMap renderPair := by rw [hpairs]
      _ = data := (faithful_iff h).2 hclosed
  · rintro rfl
    rfl

/-- A heartbeat with a text that ends with `=`. -/
def heartbeatText : Bytes :=
  addCheckSum (heartbeatHeader.fields.flatMap Field.render ++ ascii "58=a=" ++ [soh])

/-- A heartbeat is forwarded without the SOH that ends it as well, and one with a `=` too many without
that. -/
theorem frame_not_closed :
    Server.buildHeader FixHeader.table 1 heartbeat.data.dropLast = .ok heartbeat.message ∧
    Server.buildHeader FixHeader.table 1 heartbeat.data = .ok heartbeat.message ∧
    parsedPairs heartbeat.data.dropLast = parsedPairs heartbeat.data ∧
    ¬ Faithful heartbeat.data.dropLast ∧
    Server.buildHeader FixHeader.table 1 heartbeatText =
      .ok (heartbeat.message.1, [(ascii "58", ascii "a")]) ∧
    heartbeatText.getLast? = some soh ∧ ¬ Faithful heartbeatText := by
  refine ⟨by decide +kernel, by decide +kernel, by decide +kernel, by decide +kernel,
    by decide +kernel, by decide +kernel, by decide +kernel⟩

/-- The heartbeat itself is its pairs. -/
theorem heartbeat_grammar :
    Server.buildHeader FixHeader.table 1 heartbeat.data = .ok heartbeat.message ∧
    Closed heartbeat.data ∧ Faithful heartbeat.data := by
  have h : Server.buildHeader FixHeader.table 1 heartbeat.data = .ok heartbeat.message := by
    decide +kernel
  have hclosed : Closed heartbeat.data := by decide +kernel
  exact ⟨h, hclosed, (frame_grammar FixHeader.table 1 heartbeat.data heartbeat.message h).2.1.2
    hclosed⟩

end Wire

end Fix42

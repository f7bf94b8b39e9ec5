import PgWaitTracer.Lib.ByteCodec
import PgWaitTracer.Trace.Event
import Mathlib.Data.Nat.Bitwise
import Mathlib.Tactic.Linarith

/-!
# The block format of trace files

A trace block is a packed header of 40 bytes followed by an LZ4-compressed columnar payload
(`src/event_writer.c`, `src/event_reader.c`, `src/docs/TRACE_FORMAT.md`). The columns are laid end
to end without lengths: timestamps are delta-coded modulo `2 ^ 64` as LEB128 varints, durations and
measured CPU are varints, the rest are fixed-width words.

LZ4 is not part of the repository; it is the parameter `Lz4`, which carries the documented
behaviour of `LZ4_compress_default` and `LZ4_decompress_safe`. Allocation is taken to succeed.

## Main results

* `inverts_varint`: every 64-bit value is read back from its varint.
* `typedBlock_decodes`: whatever surrounds it in the file, a written block decodes to
  the records it was written from, in all three layouts.
-/

namespace PgWaitTracer

open ByteCodec

/-! ### Varints -/

/-- `pgwt_encode_varint`: seven bits a byte, lowest first, the high bit set on all but the last. -/
def encodeVarint (val : UInt64) : Bytes :=
  if val >>> 7 = 0 then [(val &&& 0x7F).toUInt8]
  else ((val &&& 0x7F).toUInt8 ||| 0x80) :: encodeVarint (val >>> 7)
termination_by val.toNat
decreasing_by
  rename_i h
  have hpos : (val >>> 7).toNat ≠ 0 := fun h0 => h (UInt64.toNat_inj.1 h0)
  rw [UInt64.toNat_shiftRight, Nat.shiftRight_eq_div_pow] at hpos ⊢
  change val.toNat / 2 ^ 7 ≠ 0 at hpos
  change val.toNat / 2 ^ 7 < val.toNat
  omega

/-- The loop of `pgwt_decode_varint`: the bits read so far and the next shift. It refuses a varint
that is cut short and one whose shift leaves the 64-bit word. -/
def decodeVarintLoop (result : UInt64) (shift : ℕ) : Reader UInt64
  | [] => none
  | b :: bs =>
    if 63 < shift then none
    else
      let result := result ||| (b &&& 0x7F).toUInt64 <<< UInt64.ofNat shift
      if b &&& 0x80 = 0 then some (result, bs) else decodeVarintLoop result (shift + 7) bs

/-- `pgwt_decode_varint`. -/
def decodeVarint : Reader UInt64 := decodeVarintLoop 0 0

theorem toNat_shiftRight_seven (v : UInt64) : (v >>> 7).toNat = v.toNat / 128 := by
  rw [UInt64.toNat_shiftRight, Nat.shiftRight_eq_div_pow]
  rfl

theorem shiftRight_seven_eq_zero {v : UInt64} : v >>> 7 = 0 ↔ v.toNat < 128 := by
  rw [← UInt64.toNat_inj, toNat_shiftRight_seven]
  change v.toNat / 128 = 0 ↔ _
  omega

theorem toNat_lowBits (v : UInt64) : (v &&& 0x7F).toUInt8.toNat = v.toNat % 128 := by
  rw [UInt64.toNat_toUInt8, UInt64.toNat_and]
  have h : v.toNat &&& (0x7F : UInt64).toNat = v.toNat % 2 ^ 7 :=
    Nat.and_two_pow_sub_one_eq_mod v.toNat 7
  rw [h]
  omega

theorem toNat_or_contBit {b : UInt8} (h : b.toNat < 128) : (b ||| 0x80).toNat = b.toNat + 128 := by
  have h7 := Nat.two_pow_add_eq_or_of_lt (i := 7) h 1
  rw [UInt8.toNat_or, Nat.or_comm]
  change 2 ^ 7 * 1 ||| b.toNat = _
  omega

theorem toNat_dataBits (b : UInt8) : (b &&& 0x7F).toUInt64.toNat = b.toNat % 128 := by
  rw [UInt8.toNat_toUInt64, UInt8.toNat_and]
  exact Nat.and_two_pow_sub_one_eq_mod b.toNat 7

theorem contBit_eq_zero {b : UInt8} : b &&& 0x80 = 0 ↔ b.toNat < 128 := by
  have hb := b.toNat_lt
  have hand : (b &&& 0x80).toNat = 2 ^ 7 * (b.toNat / 2 ^ 7 % 2) := by
    rw [UInt8.toNat_and]
    change b.toNat &&& 2 ^ 7 = _
    rw [Nat.and_two_pow, Nat.toNat_testBit, Nat.mul_comm]
  rw [← UInt8.toNat_inj, hand]
  change 2 ^ 7 * (b.toNat / 2 ^ 7 % 2) = 0 ↔ _
  omega

theorem toNat_or_shiftLeft {r x : UInt64} {s : ℕ} (hs : s ≤ 63) (hr : r.toNat < 2 ^ s)
    (hx : x.toNat * 2 ^ s < 2 ^ 64) :
    (r ||| x <<< UInt64.ofNat s).toNat = r.toNat + x.toNat * 2 ^ s := by
  have hshift : (x <<< UInt64.ofNat s).toNat = x.toNat <<< s := by
    rw [UInt64.toNat_shiftLeft, UInt64.toNat_ofNat', Nat.shiftLeft_eq, Nat.shiftLeft_eq]
    have hmod : s % 2 ^ 64 % 64 = s := by omega
    rw [hmod, Nat.mod_eq_of_lt hx]
  rw [UInt64.toNat_or, hshift, Nat.or_comm, ← Nat.shiftLeft_add_eq_or_of_lt hr,
    Nat.shiftLeft_eq, Nat.add_comm]

/-- The loop reads a varint back on top of the bits it has, as long as the value fits above
them. -/
theorem decodeVarintLoop_encodeVarint (v r : UInt64) (s : ℕ) (rest : Bytes) (hs : s ≤ 63)
    (hr : r.toNat < 2 ^ s) (hv : v.toNat * 2 ^ s < 2 ^ 64) :
    decodeVarintLoop r s (encodeVarint v ++ rest) =
      some (UInt64.ofNat (r.toNat + v.toNat * 2 ^ s), rest) := by
  induction v using encodeVarint.induct generalizing r s with
  | case1 v h0 =>
    have hlt : v.toNat < 128 := shiftRight_seven_eq_zero.1 h0
    have hlow := toNat_lowBits v
    have hbyte : ((v &&& 0x7F).toUInt8 &&& 0x7F).toUInt64.toNat = v.toNat := by
      rw [toNat_dataBits, hlow]
      omega
    have hcont : (v &&& 0x7F).toUInt8 &&& 0x80 = 0 := contBit_eq_zero.2 (by omega)
    rw [encodeVarint, if_pos h0, List.cons_append, List.nil_append, decodeVarintLoop,
      if_neg (by omega), if_pos hcont]
    congr 2
    rw [← UInt64.toNat_inj, toNat_or_shiftLeft hs hr (by rw [hbyte]; exact hv), hbyte,
      UInt64.toNat_ofNat']
    have hsum : r.toNat + v.toNat * 2 ^ s < 2 ^ 64 := by
      rw [← hbyte, ← toNat_or_shiftLeft hs hr (by rw [hbyte]; exact hv)]
      exact UInt64.toNat_lt _
    rw [Nat.mod_eq_of_lt hsum]
  | case2 v h0 ih =>
    have hge : 128 ≤ v.toNat := by
      have hlt := mt shiftRight_seven_eq_zero.2 h0
      omega
    have hlow := toNat_lowBits v
    have hor : ((v &&& 0x7F).toUInt8 ||| 0x80).toNat = v.toNat % 128 + 128 := by
      rw [toNat_or_contBit (by omega), hlow]
    have hbyte : (((v &&& 0x7F).toUInt8 ||| 0x80) &&& 0x7F).toUInt64.toNat = v.toNat % 128 := by
      rw [toNat_dataBits, hor]
      omega
    have hcont : ¬((v &&& 0x7F).toUInt8 ||| 0x80) &&& 0x80 = 0 := by
      rw [contBit_eq_zero]
      omega
    have hsplit : v.toNat * 2 ^ s = v.toNat % 128 * 2 ^ s + v.toNat / 128 * 2 ^ (s + 7) := by
      have hdiv := Nat.mod_add_div v.toNat 128
      calc v.toNat * 2 ^ s = (v.toNat % 128 + 128 * (v.toNat / 128)) * 2 ^ s := by rw [hdiv]
        _ = v.toNat % 128 * 2 ^ s + v.toNat / 128 * 2 ^ (s + 7) := by ring
    -- a value with a second byte leaves room for seven more bits
    have hs' : s + 7 ≤ 63 := by
      by_contra hgt
      have hp : 2 ^ 64 ≤ 2 ^ (s + 7) := Nat.pow_le_pow_right (by norm_num) (by omega)
      have hd : 1 ≤ v.toNat / 128 := by omega
      have hm := Nat.mul_le_mul hd (le_refl (2 ^ (s + 7)))
      omega
    have hacc := toNat_or_shiftLeft (x := (((v &&& 0x7F).toUInt8 ||| 0x80) &&& 0x7F).toUInt64)
      hs hr (by rw [hbyte]; omega)
    rw [hbyte] at hacc
    have hr' : r.toNat + v.toNat % 128 * 2 ^ s < 2 ^ (s + 7) := by
      have hm : v.toNat % 128 + 1 ≤ 128 := by omega
      have hm' := Nat.mul_le_mul_right (2 ^ s) hm
      have hp : 2 ^ (s + 7) = 128 * 2 ^ s := by ring
      linarith
    rw [encodeVarint, if_neg h0, List.cons_append, decodeVarintLoop, if_neg (by omega),
      if_neg hcont, ih _ _ hs' (by rw [hacc]; exact hr')
        (by rw [toNat_shiftRight_seven]; omega), hacc, toNat_shiftRight_seven, hsplit]
    congr 3
    omega

/-- **Varints round-trip.** Every 64-bit value is read back from its varint, whatever follows. -/
theorem inverts_varint : Inverts decodeVarint encodeVarint fun _ => True := by
  intro v _ rest
  have hv := v.toNat_lt
  rw [decodeVarint, decodeVarintLoop_encodeVarint v 0 0 rest (by omega) (by decide) (by omega)]
  simp

theorem length_encodeVarint_le_of_lt : (k : ℕ) → (v : UInt64) → v.toNat < 2 ^ (7 * (k + 1)) →
    (encodeVarint v).length ≤ k + 1
  | 0, v, h => by
    rw [encodeVarint, if_pos (shiftRight_seven_eq_zero.2 (by simpa using h))]
    rfl
  | k + 1, v, h => by
    rw [encodeVarint]
    split
    · simp
    · have hlt : v.toNat / 128 < 2 ^ (7 * (k + 1)) := by
        have hp : 2 ^ (7 * (k + 1 + 1)) = 2 ^ (7 * (k + 1)) * 128 := by ring
        rw [Nat.div_lt_iff_lt_mul (by norm_num)]
        omega
      have ih := length_encodeVarint_le_of_lt k (v >>> 7) (by rwa [toNat_shiftRight_seven])
      rw [List.length_cons]
      omega

theorem length_encodeVarint_le (v : UInt64) : (encodeVarint v).length ≤ 10 := by
  have hv := v.toNat_lt
  exact length_encodeVarint_le_of_lt 9 v (by omega)

/-! ### Columns -/

/-- The timestamp column: differences to the previous timestamp modulo `2 ^ 64`, as varints. -/
def encodeTimestamps (prev : UInt64) : List TraceEvent → Bytes
  | [] => []
  | ev :: evs => encodeVarint (ev.timestampNs - prev) ++ encodeTimestamps ev.timestampNs evs

/-- The timestamp column read back: the running sum of the differences modulo `2 ^ 64`. -/
def decodeTimestamps (prev : UInt64) : ℕ → Reader (List UInt64)
  | 0, bs => some ([], bs)
  | n + 1, bs => do
    let (delta, bs) ← decodeVarint bs
    let (ts, bs) ← decodeTimestamps (prev + delta) n bs
    pure ((prev + delta) :: ts, bs)

/-- A raw 32-bit entry. -/
def encodeU32 (x : UInt32) : Bytes := leBytes 4 x.toNat

/-- A raw 64-bit entry. -/
def encodeU64 (x : UInt64) : Bytes := leBytes 8 x.toNat

/-- The reader of a raw 32-bit entry. -/
def decodeU32 : Reader UInt32 := fun bs => (readWord 4 bs).map fun r => (UInt32.ofNat r.1, r.2)

/-- The reader of a raw 64-bit entry. -/
def decodeU64 : Reader UInt64 := fun bs => (readWord 8 bs).map fun r => (UInt64.ofNat r.1, r.2)

theorem inverts_u32 : Inverts decodeU32 encodeU32 fun _ => True :=
  inverts_word 4 UInt32.toNat UInt32.ofNat (fun a => a.toNat_lt) fun _ => UInt32.ofNat_toNat

theorem inverts_u64 : Inverts decodeU64 encodeU64 fun _ => True :=
  inverts_word 8 UInt64.toNat UInt64.ofNat (fun a => a.toNat_lt) fun _ => UInt64.ofNat_toNat

theorem decodeTimestamps_encodeTimestamps : (prev : UInt64) → (evs : List TraceEvent) →
    (rest : Bytes) → decodeTimestamps prev evs.length (encodeTimestamps prev evs ++ rest) =
      some (evs.map TraceEvent.timestampNs, rest)
  | _, [], _ => rfl
  | prev, ev :: evs, rest => by
    have hhead := inverts_varint (ev.timestampNs - prev) trivial
      (encodeTimestamps ev.timestampNs evs ++ rest)
    have hsum : prev + (ev.timestampNs - prev) = ev.timestampNs := by
      rw [UInt64.add_comm, UInt64.sub_add_cancel]
    have htail := decodeTimestamps_encodeTimestamps ev.timestampNs evs rest
    simp only [List.length_cons, encodeTimestamps, List.append_assoc, decodeTimestamps, hhead,
      Option.bind_eq_bind, Option.bind_some, hsum, htail, List.map_cons]
    rfl

theorem readMany_column {α : Type} {rd : Reader α} {enc : α → Bytes}
    (h : Inverts rd enc fun _ => True) (field : TraceEvent → α) (evs : List TraceEvent)
    (rest : Bytes) :
    readMany rd evs.length (evs.flatMap (fun ev => enc (field ev)) ++ rest) =
      some (evs.map field, rest) := by
  have hcol := h.many (evs.map field) (fun _ _ => trivial) rest
  rwa [List.length_map, List.flatMap_map] at hcol

/-! ### Payloads -/

/-- Columns 1 to 6 of a transitions payload: the whole payload of a version 2 file. -/
def encodeBlockV2 (evs : List TraceEvent) : Bytes :=
  encodeTimestamps 0 evs ++
    (evs.flatMap (fun ev => encodeU32 ev.pid) ++
      (evs.flatMap (fun ev => encodeU32 ev.oldEvent) ++
        (evs.flatMap (fun ev => encodeU32 ev.newEvent) ++
          (evs.flatMap (fun ev => encodeVarint ev.durationNs) ++
            evs.flatMap fun ev => encodeU64 ev.queryId))))

/-- `pgwt_encode_block`: column 7 holds the measured CPU. -/
def encodeBlock (evs : List TraceEvent) : Bytes :=
  encodeBlockV2 evs ++ evs.flatMap fun ev => encodeVarint ev.cpuNs

/-- `pgwt_encode_sample_block`: the sampled event is in `newEvent`. -/
def encodeSampleBlock (evs : List TraceEvent) : Bytes :=
  encodeTimestamps 0 evs ++
    (evs.flatMap (fun ev => encodeU32 ev.pid) ++
      (evs.flatMap (fun ev => encodeU32 ev.newEvent) ++
        evs.flatMap fun ev => encodeU64 ev.queryId))

/-- The records of a transitions block from its columns; the flags are cleared. -/
def transitionRows : List UInt64 → List UInt32 → List UInt32 → List UInt32 → List UInt64 →
    List UInt64 → List UInt64 → List TraceEvent
  | t :: ts, p :: ps, o :: os, n :: ns, d :: ds, q :: qs, c :: cs =>
    ⟨t, p, o, n, 0, d, q, c⟩ :: transitionRows ts ps os ns ds qs cs
  | _, _, _, _, _, _, _ => []

/-- The records of a samples block from its columns: point observations without a duration or a
measurement, flagged as samples. -/
def sampleRows : List UInt64 → List UInt32 → List UInt32 → List UInt64 → List TraceEvent
  | t :: ts, p :: ps, n :: ns, q :: qs =>
    ⟨t, p, 0, n, flagSample, 0, q, cpuNsUnknown⟩ :: sampleRows ts ps ns qs
  | _, _, _, _ => []

/-- The columnar decode of a samples payload (`pgwt_reader_decode_block_info`). -/
def decodeSamplePayload (count : ℕ) (bs : Bytes) : Option (List TraceEvent) := do
  let (ts, bs) ← decodeTimestamps 0 count bs
  let (pids, bs) ← readMany decodeU32 count bs
  let (news, bs) ← readMany decodeU32 count bs
  let (qids, _) ← readMany decodeU64 count bs
  pure (sampleRows ts pids news qids)

/-- The columnar decode of a transitions payload (`pgwt_reader_decode_block_info`): column 7 is
read from version 3 on, before that the measurement is unknown. -/
def decodeTransitionPayload (version : UInt16) (count : ℕ) (bs : Bytes) :
    Option (List TraceEvent) := do
  let (ts, bs) ← decodeTimestamps 0 count bs
  let (pids, bs) ← readMany decodeU32 count bs
  let (olds, bs) ← readMany decodeU32 count bs
  let (news, bs) ← readMany decodeU32 count bs
  let (durs, bs) ← readMany decodeVarint count bs
  let (qids, bs) ← readMany decodeU64 count bs
  if 3 ≤ version then
    let (cpus, _) ← readMany decodeVarint count bs
    pure (transitionRows ts pids olds news durs qids cpus)
  else
    pure (transitionRows ts pids olds news durs qids (List.replicate count cpuNsUnknown))

/-- The columnar decode, by the block type of the header. -/
def decodePayload (blockType version : UInt16) (count : ℕ) (payload : Bytes) :
    Option (List TraceEvent) :=
  if blockType = 1 then decodeSamplePayload count payload
  else decodeTransitionPayload version count payload

theorem length_of_decodeTimestamps : (n : ℕ) → {prev : UInt64} → {bs rest : Bytes} →
    {ts : List UInt64} → decodeTimestamps prev n bs = some (ts, rest) → ts.length = n
  | 0, _, _, _, _, h => by
    obtain ⟨rfl, -⟩ := Prod.ext_iff.1 (Option.some.inj h)
    rfl
  | n + 1, _, _, _, _, h => by
    simp only [decodeTimestamps, Option.bind_eq_bind, Option.bind_eq_some_iff, Option.pure_def,
      Option.some.injEq, Prod.mk.injEq] at h
    obtain ⟨_, -, _, htail, rfl, -⟩ := h
    rw [List.length_cons, length_of_decodeTimestamps n htail]

theorem length_transitionRows : (n : ℕ) → {ts : List UInt64} → {ps os ns : List UInt32} →
    {ds qs cs : List UInt64} → ts.length = n → ps.length = n → os.length = n → ns.length = n →
    ds.length = n → qs.length = n → cs.length = n → (transitionRows ts ps os ns ds qs cs).length = n
  | 0, ts, _, _, _, _, _, _, h, _, _, _, _, _, _ => by
    obtain rfl := List.length_eq_zero_iff.1 h
    rfl
  | n + 1, t :: ts, p :: ps, o :: os, n' :: ns, d :: ds, q :: qs, c :: cs, h1, h2, h3, h4, h5, h6,
      h7 => by
    rw [transitionRows, List.length_cons, length_transitionRows n (Nat.succ.inj h1)
      (Nat.succ.inj h2) (Nat.succ.inj h3) (Nat.succ.inj h4) (Nat.succ.inj h5) (Nat.succ.inj h6)
      (Nat.succ.inj h7)]

theorem length_sampleRows : (n : ℕ) → {ts : List UInt64} → {ps ns : List UInt32} →
    {qs : List UInt64} → ts.length = n → ps.length = n → ns.length = n → qs.length = n →
    (sampleRows ts ps ns qs).length = n
  | 0, ts, _, _, _, h, _, _, _ => by
    obtain rfl := List.length_eq_zero_iff.1 h
    rfl
  | n + 1, t :: ts, p :: ps, n' :: ns, q :: qs, h1, h2, h3, h4 => by
    rw [sampleRows, List.length_cons, length_sampleRows n (Nat.succ.inj h1) (Nat.succ.inj h2)
      (Nat.succ.inj h3) (Nat.succ.inj h4)]

theorem flags_transitionRows : (ts : List UInt64) → (ps os ns : List UInt32) →
    (ds qs cs : List UInt64) → ∀ ev ∈ transitionRows ts ps os ns ds qs cs, ev.flags = 0
  | _ :: ts, _ :: ps, _ :: os, _ :: ns, _ :: ds, _ :: qs, _ :: cs, ev, hev => by
    rw [transitionRows, List.mem_cons] at hev
    rcases hev with rfl | hev
    · rfl
    · exact flags_transitionRows ts ps os ns ds qs cs ev hev

theorem length_of_decodePayload {blockType version : UInt16} {count : ℕ} {payload : Bytes}
    {evs : List TraceEvent} (h : decodePayload blockType version count payload = some evs) :
    evs.length = count := by
  rw [decodePayload] at h
  split_ifs at h
  · simp only [decodeSamplePayload, Option.bind_eq_bind, Option.bind_eq_some_iff, Option.pure_def,
      Option.some.injEq, Prod.exists] at h
    obtain ⟨ts, _, hts, ps, _, hps, ns, _, hns, qs, _, hqs, rfl⟩ := h
    exact length_sampleRows count (length_of_decodeTimestamps count hts)
      (length_of_readMany count hps) (length_of_readMany count hns) (length_of_readMany count hqs)
  · simp only [decodeTransitionPayload, Option.bind_eq_bind, Option.bind_eq_some_iff,
      Prod.exists] at h
    obtain ⟨ts, _, hts, ps, _, hps, os, _, hos, ns, _, hns, ds, _, hds, qs, _, hqs, h⟩ := h
    split_ifs at h
    · simp only [Option.bind_eq_some_iff, Option.pure_def, Option.some.injEq, Prod.exists] at h
      obtain ⟨cs, _, hcs, rfl⟩ := h
      exact length_transitionRows count (length_of_decodeTimestamps count hts)
        (length_of_readMany count hps) (length_of_readMany count hos) (length_of_readMany count hns)
        (length_of_readMany count hds) (length_of_readMany count hqs) (length_of_readMany count hcs)
    · obtain rfl := Option.some.inj h
      exact length_transitionRows count (length_of_decodeTimestamps count hts)
        (length_of_readMany count hps) (length_of_readMany count hos) (length_of_readMany count hns)
        (length_of_readMany count hds) (length_of_readMany count hqs) List.length_replicate

/-- What a record becomes in a transitions block: its flags are not persisted. -/
def TraceEvent.asTransition (ev : TraceEvent) : TraceEvent := { ev with flags := 0 }

/-- What a record becomes in a version 2 transitions block. -/
def TraceEvent.asTransitionV2 (ev : TraceEvent) : TraceEvent :=
  { ev with flags := 0, cpuNs := cpuNsUnknown }

/-- What a record becomes in a samples block. -/
def TraceEvent.asSample (ev : TraceEvent) : TraceEvent :=
  { ev with oldEvent := 0, flags := flagSample, durationNs := 0, cpuNs := cpuNsUnknown }

theorem transitionRows_map : (evs : List TraceEvent) →
    transitionRows (evs.map (·.timestampNs)) (evs.map (·.pid)) (evs.map (·.oldEvent))
      (evs.map (·.newEvent)) (evs.map (·.durationNs)) (evs.map (·.queryId))
      (evs.map (·.cpuNs)) = evs.map TraceEvent.asTransition
  | [] => rfl
  | ev :: evs => by
    simp only [List.map_cons, transitionRows, transitionRows_map evs]
    rfl

theorem transitionRows_map_unknown : (evs : List TraceEvent) →
    transitionRows (evs.map (·.timestampNs)) (evs.map (·.pid)) (evs.map (·.oldEvent))
      (evs.map (·.newEvent)) (evs.map (·.durationNs)) (evs.map (·.queryId))
      (List.replicate evs.length cpuNsUnknown) = evs.map TraceEvent.asTransitionV2
  | [] => rfl
  | ev :: evs => by
    simp only [List.map_cons, List.length_cons, List.replicate_succ, transitionRows,
      transitionRows_map_unknown evs]
    rfl

theorem sampleRows_map : (evs : List TraceEvent) →
    sampleRows (evs.map (·.timestampNs)) (evs.map (·.pid)) (evs.map (·.newEvent))
      (evs.map (·.queryId)) = evs.map TraceEvent.asSample
  | [] => rfl
  | ev :: evs => by
    simp only [List.map_cons, sampleRows, sampleRows_map evs]
    rfl

theorem decodeSamplePayload_encodeSampleBlock (evs : List TraceEvent) :
    decodeSamplePayload evs.length (encodeSampleBlock evs) =
      some (evs.map TraceEvent.asSample) := by
  have hq := readMany_column inverts_u64 (·.queryId) evs []
  rw [List.append_nil] at hq
  simp only [decodeSamplePayload, encodeSampleBlock, decodeTimestamps_encodeTimestamps,
    readMany_column inverts_u32, hq, Option.bind_eq_bind, Option.bind_some, Option.pure_def,
    sampleRows_map]

theorem decodeTransitionPayload_encodeBlock {version : UInt16} (hv : 3 ≤ version)
    (evs : List TraceEvent) :
    decodeTransitionPayload version evs.length (encodeBlock evs) =
      some (evs.map TraceEvent.asTransition) := by
  have hc := readMany_column inverts_varint (·.cpuNs) evs []
  rw [List.append_nil] at hc
  simp only [decodeTransitionPayload, encodeBlock, encodeBlockV2, List.append_assoc,
    decodeTimestamps_encodeTimestamps, readMany_column inverts_u32, readMany_column inverts_u64,
    readMany_column inverts_varint, hc, Option.bind_eq_bind, Option.bind_some, Option.pure_def,
    if_pos hv, transitionRows_map]

theorem decodeTransitionPayload_encodeBlockV2 {version : UInt16} (hv : ¬3 ≤ version)
    (evs : List TraceEvent) :
    decodeTransitionPayload version evs.length (encodeBlockV2 evs) =
      some (evs.map TraceEvent.asTransitionV2) := by
  have hq := readMany_column inverts_u64 (·.queryId) evs []
  rw [List.append_nil] at hq
  simp only [decodeTransitionPayload, encodeBlockV2,
    decodeTimestamps_encodeTimestamps, readMany_column inverts_u32, hq,
    readMany_column inverts_varint, Option.bind_eq_bind, Option.bind_some, Option.pure_def,
    if_neg hv, transitionRows_map_unknown]

/-! ### Sizes -/

/-- `PGWT_BLOCK_EVENTS`: the capacity of a block. -/
def blockEvents : ℕ := 4096

theorem length_encodeTimestamps_le : (prev : UInt64) → (evs : List TraceEvent) →
    (encodeTimestamps prev evs).length ≤ 10 * evs.length
  | _, [] => by simp [encodeTimestamps]
  | prev, ev :: evs => by
    have hhead := length_encodeVarint_le (ev.timestampNs - prev)
    have htail := length_encodeTimestamps_le ev.timestampNs evs
    rw [encodeTimestamps, List.length_append, List.length_cons]
    omega

theorem length_column_le {f : TraceEvent → Bytes} {c : ℕ} (h : ∀ ev, (f ev).length ≤ c) :
    (evs : List TraceEvent) → (evs.flatMap f).length ≤ c * evs.length
  | [] => by simp
  | ev :: evs => by
    have hhead := h ev
    have htail := length_column_le h evs
    rw [List.flatMap_cons, List.length_append, List.length_cons, Nat.mul_add]
    omega

theorem length_encodeBlockV2_le (evs : List TraceEvent) :
    (encodeBlockV2 evs).length ≤ 40 * evs.length := by
  have h1 := length_encodeTimestamps_le 0 evs
  have h2 := length_column_le (f := fun ev => encodeU32 ev.pid) (c := 4)
    (fun ev => by simp [encodeU32]) evs
  have h3 := length_column_le (f := fun ev => encodeU32 ev.oldEvent) (c := 4)
    (fun ev => by simp [encodeU32]) evs
  have h4 := length_column_le (f := fun ev => encodeU32 ev.newEvent) (c := 4)
    (fun ev => by simp [encodeU32]) evs
  have h5 := length_column_le (f := fun ev => encodeVarint ev.durationNs) (c := 10)
    (fun ev => length_encodeVarint_le ev.durationNs) evs
  have h6 := length_column_le (f := fun ev => encodeU64 ev.queryId) (c := 8)
    (fun ev => by simp [encodeU64]) evs
  simp only [encodeBlockV2, List.length_append]
  omega

theorem length_encodeBlock_le (evs : List TraceEvent) :
    (encodeBlock evs).length ≤ 50 * evs.length := by
  have h1 := length_encodeBlockV2_le evs
  have h2 := length_column_le (f := fun ev => encodeVarint ev.cpuNs) (c := 10)
    (fun ev => length_encodeVarint_le ev.cpuNs) evs
  rw [encodeBlock, List.length_append]
  omega

theorem length_encodeSampleBlock_le (evs : List TraceEvent) :
    (encodeSampleBlock evs).length ≤ 26 * evs.length := by
  have h1 := length_encodeTimestamps_le 0 evs
  have h2 := length_column_le (f := fun ev => encodeU32 ev.pid) (c := 4)
    (fun ev => by simp [encodeU32]) evs
  have h3 := length_column_le (f := fun ev => encodeU32 ev.newEvent) (c := 4)
    (fun ev => by simp [encodeU32]) evs
  have h4 := length_column_le (f := fun ev => encodeU64 ev.queryId) (c := 8)
    (fun ev => by simp [encodeU64]) evs
  simp only [encodeSampleBlock, List.length_append]
  omega

/-! ### LZ4 -/

/-- `LZ4_compressBound`. -/
def lz4CompressBound (n : ℕ) : ℕ := n + n / 255 + 16

/-- The LZ4 block codec, with the documented behaviour of the two calls the tracer makes.
`compress src cap` is `LZ4_compress_default` into a buffer of `cap` bytes, a failed call being
`none`; `decompress c cap` is `LZ4_decompress_safe` into a buffer of `cap` bytes. -/
structure Lz4 where
  compress : Bytes → ℕ → Option Bytes
  decompress : Bytes → ℕ → Option Bytes
  /-- Compression into a buffer of `LZ4_compressBound` bytes succeeds. -/
  compress_isSome : ∀ src cap, src.length ≤ 0x7E000000 → lz4CompressBound src.length ≤ cap →
    ∃ c, compress src cap = some c
  /-- The compressed data are not empty and fit the buffer. -/
  length_compress : ∀ src cap c, compress src cap = some c → 0 < c.length ∧ c.length ≤ cap
  /-- Decompression into a large enough buffer inverts compression. -/
  decompress_compress : ∀ src cap c n, compress src cap = some c → src.length ≤ n →
    decompress c n = some src

/-! ### Block headers -/

/-- `enum pgwt_block_type`. -/
inductive BlockType
  | transitions | samples
  deriving DecidableEq, Repr, Inhabited

/-- The number stored for a block type. -/
def BlockType.code : BlockType → UInt16
  | .transitions => 0
  | .samples => 1

/-- `struct pgwt_trace_block_header`, packed. -/
structure BlockHeader where
  firstTimestampNs : UInt64
  lastTimestampNs : UInt64
  numEvents : UInt32
  compressedSize : UInt32
  uncompressedSize : UInt32
  blockType : UInt16
  reserved : UInt16
  samplePeriodNs : UInt64
  deriving DecidableEq, Repr, Inhabited

/-- The reader of a raw 16-bit entry. -/
def decodeU16 : Reader UInt16 := fun bs => (readWord 2 bs).map fun r => (UInt16.ofNat r.1, r.2)

theorem inverts_u16 : Inverts decodeU16 (fun x => leBytes 2 x.toNat) fun _ => True :=
  inverts_word 2 UInt16.toNat UInt16.ofNat (fun a => a.toNat_lt) fun _ => UInt16.ofNat_toNat

/-- The 40 bytes of a block header. -/
def BlockHeader.bytes (bh : BlockHeader) : Bytes :=
  encodeU64 bh.firstTimestampNs ++ (encodeU64 bh.lastTimestampNs ++ (encodeU32 bh.numEvents ++
    (encodeU32 bh.compressedSize ++ (encodeU32 bh.uncompressedSize ++
      (leBytes 2 bh.blockType.toNat ++ (leBytes 2 bh.reserved.toNat ++
        encodeU64 bh.samplePeriodNs))))))

/-- `fread` of a block header. -/
def readBlockHeader : Reader BlockHeader := fun bs => do
  let (first, bs) ← decodeU64 bs
  let (last, bs) ← decodeU64 bs
  let (num, bs) ← decodeU32 bs
  let (csize, bs) ← decodeU32 bs
  let (usize, bs) ← decodeU32 bs
  let (type, bs) ← decodeU16 bs
  let (reserved, bs) ← decodeU16 bs
  let (period, bs) ← decodeU64 bs
  pure (⟨first, last, num, csize, usize, type, reserved, period⟩, bs)

@[simp] theorem length_blockHeader_bytes (bh : BlockHeader) : bh.bytes.length = 40 := by
  simp [BlockHeader.bytes, encodeU64, encodeU32]

theorem inverts_blockHeader : Inverts readBlockHeader BlockHeader.bytes fun _ => True := by
  intro bh _ rest
  have h64 := fun a bs => inverts_u64 a trivial bs
  have h32 := fun a bs => inverts_u32 a trivial bs
  have h16 := fun a bs => inverts_u16 a trivial bs
  simp only [BlockHeader.bytes, List.append_assoc, readBlockHeader, h64, h32, h16,
    Option.bind_eq_bind, Option.bind_some, Option.pure_def]

/-! ### Writing a block -/

/-- The columnar payload of a block of the given type. -/
def encodePayload (type : BlockType) (evs : List TraceEvent) : Bytes :=
  match type with
  | .transitions => encodeBlock evs
  | .samples => encodeSampleBlock evs

/-- The size of the writer's compression buffer, `LZ4_compressBound` of the encoding buffer of
`PGWT_BLOCK_EVENTS * 56` bytes. -/
def compressBufSize : ℕ := lz4CompressBound (blockEvents * 56)

/-- The header `write_typed_block` builds for a payload. -/
def blockHeaderOf (type : BlockType) (period : UInt64) (evs : List TraceEvent)
    (encodedSize compressedSize : ℕ) : BlockHeader where
  firstTimestampNs := (evs.head?.map (·.timestampNs)).getD 0
  lastTimestampNs := (evs.getLast?.map (·.timestampNs)).getD 0
  numEvents := UInt32.ofNat evs.length
  compressedSize := UInt32.ofNat compressedSize
  uncompressedSize := UInt32.ofNat encodedSize
  blockType := type.code
  reserved := 0
  samplePeriodNs := period

/-- A block around a given payload: nothing for no records, `none` when LZ4 fails. -/
def blockOfPayload (lz : Lz4) (type : BlockType) (period : UInt64) (evs : List TraceEvent)
    (payload : Bytes) : Option Bytes :=
  if evs.length = 0 then some []
  else do
    let c ← lz.compress payload compressBufSize
    pure ((blockHeaderOf type period evs payload.length c.length).bytes ++ c)

/-- The bytes `write_typed_block` appends to the file. -/
def typedBlock (lz : Lz4) (type : BlockType) (period : UInt64) (evs : List TraceEvent) :
    Option Bytes :=
  blockOfPayload lz type period evs (encodePayload type evs)

/-! ### Reading a block -/

/-- `struct pgwt_block_info`, what the header says about the block. -/
structure BlockInfo where
  blockType : UInt16
  samplePeriodNs : UInt64
  firstTimestampNs : UInt64
  lastTimestampNs : UInt64
  numEvents : UInt32
  deriving DecidableEq, Repr

/-- The part of `struct pgwt_event_reader` that decoding uses: the file, the version of its header,
the offsets of the block index and the size of the decode buffer. `pgwt_reader_open` allocates
`PGWT_BLOCK_EVENTS * 46` bytes and an earlier block may have grown it; the size is handed to LZ4 as
an `int`. -/
structure EventReader where
  file : Bytes
  version : UInt16
  blockOffsets : List UInt64
  decodeBufSize : ℕ := blockEvents * 36 + blockEvents * 10
  decodeBufSize_lt : decodeBufSize < 2 ^ 31 := by decide

theorem initialDecodeBuf_lt : blockEvents * 36 + blockEvents * 10 < 2 ^ 31 := by decide

/-- A 32-bit word as a C `int`. -/
def toCInt (x : UInt32) : ℤ := if x.toNat < 2 ^ 31 then x.toNat else x.toNat - 2 ^ 32

/-- The call of `LZ4_decompress_safe` with its sizes cast to `int`: a negative size is refused. -/
def lz4DecompressInt (lz : Lz4) (c : Bytes) (cap : ℕ) : Option Bytes :=
  if 2 ^ 31 ≤ c.length ∨ 2 ^ 31 ≤ cap then none else lz.decompress c cap

/-- `pgwt_reader_decode_block_info`: the records and the block info, or a negative result. -/
def decodeBlockInfo (lz : Lz4) (r : EventReader) (blockIdx maxEvents : ℤ) :
    Option (List TraceEvent × BlockInfo) := do
  if blockIdx < 0 ∨ (r.blockOffsets.length : ℤ) ≤ blockIdx then none
  else
    let offset ← r.blockOffsets[blockIdx.toNat]?
    let (bh, bs) ← readBlockHeader (r.file.drop offset.toNat)
    -- a block type written by a newer build is skipped, not decoded with the wrong layout
    if 1 < bh.blockType then none
    else
      let count := min (toCInt bh.numEvents) maxEvents
      let (c, _) ← readChunk bh.compressedSize.toNat bs
      let payload ← lz4DecompressInt lz c (max r.decodeBufSize bh.uncompressedSize.toNat)
      let evs ← decodePayload bh.blockType r.version count.toNat payload
      if count < 0 then none
      else pure (evs, ⟨bh.blockType, bh.samplePeriodNs, bh.firstTimestampNs,
        bh.lastTimestampNs, bh.numEvents⟩)

/-- The index entry `idx` of the reader points at the bytes `block` in the file. -/
def EventReader.BlockAt (r : EventReader) (idx : ℕ) (block : Bytes) : Prop :=
  ∃ offset post, r.blockOffsets[idx]? = some offset ∧ r.file.drop offset.toNat = block ++ post

theorem toCInt_ofNat {n : ℕ} (h : n ≤ blockEvents) : toCInt (UInt32.ofNat n) = n := by
  have hn : (UInt32.ofNat n).toNat = n := by
    rw [UInt32.toNat_ofNat']
    exact Nat.mod_eq_of_lt (by simp only [blockEvents] at h; omega)
  rw [toCInt, hn, if_pos (by simp only [blockEvents] at h; omega)]

theorem typeCode_le_one (type : BlockType) : ¬1 < type.code := by
  cases type <;> decide

/-- A block around a payload that the columnar decode reads back is written, and is decoded
wherever the index finds it. -/
theorem blockOfPayload_decodes (lz : Lz4) (type : BlockType) (period : UInt64)
    (evs out : List TraceEvent) (payload : Bytes) (version : UInt16)
    (hpos : 1 ≤ evs.length) (hmax : evs.length ≤ blockEvents)
    (hsize : payload.length ≤ 50 * evs.length)
    (hdec : decodePayload type.code version evs.length payload = some out) :
    ∃ block, blockOfPayload lz type period evs payload = some block ∧
      ∀ (r : EventReader) (idx : ℕ) (maxEvents : ℤ), r.version = version →
        r.BlockAt idx block → evs.length ≤ maxEvents →
          (decodeBlockInfo lz r idx maxEvents).map Prod.fst = some out := by
  have hmax' : evs.length ≤ 4096 := hmax
  obtain ⟨c, hc⟩ := lz.compress_isSome payload compressBufSize (by omega)
    (by simp only [compressBufSize, lz4CompressBound, blockEvents]; omega)
  have hclen := (lz.length_compress payload compressBufSize c hc).2
  have hcbound : c.length < 2 ^ 31 := lt_of_le_of_lt hclen (by decide)
  refine ⟨_, by rw [blockOfPayload, if_neg (by omega), hc]; rfl, ?_⟩
  rintro r idx maxEvents rfl ⟨offset, post, hoff, hfile⟩ hmaxEv
  set bh := blockHeaderOf type period evs payload.length c.length with hbh
  have hidx : idx < r.blockOffsets.length := (List.getElem?_eq_some_iff.1 hoff).1
  have hcs : bh.compressedSize.toNat = c.length := by
    rw [hbh]
    exact Nat.mod_eq_of_lt (by omega)
  have hus : bh.uncompressedSize.toNat = payload.length := by
    rw [hbh]
    exact Nat.mod_eq_of_lt (by omega)
  have hcount : min (toCInt bh.numEvents) maxEvents = evs.length := by
    rw [hbh, blockHeaderOf, toCInt_ofNat hmax]
    exact min_eq_left hmaxEv
  have hread : readBlockHeader (r.file.drop offset.toNat) = some (bh, c ++ post) := by
    rw [hfile, List.append_assoc]
    exact inverts_blockHeader bh trivial (c ++ post)
  have hlz : lz4DecompressInt lz c (max r.decodeBufSize bh.uncompressedSize.toNat) =
      some payload := by
    have hcap : max r.decodeBufSize bh.uncompressedSize.toNat < 2 ^ 31 :=
      max_lt r.decodeBufSize_lt (by rw [hus]; omega)
    rw [lz4DecompressInt, if_neg (by omega)]
    exact lz.decompress_compress payload compressBufSize c _ hc
      (by rw [hus]; exact le_max_right _ _)
  have hbody : decodePayload bh.blockType r.version evs.length payload = some out := hdec
  simp only [decodeBlockInfo, Int.toNat_natCast, hoff, hread, hcount, hcs, hlz,
    readChunk_append rfl, hbody, Option.bind_eq_bind, Option.bind_some, Option.pure_def,
    if_neg (show ¬1 < bh.blockType from typeCode_le_one type),
    if_neg (show ¬((idx : ℤ) < 0 ∨ (r.blockOffsets.length : ℤ) ≤ idx) by omega),
    if_neg (show ¬(evs.length : ℤ) < 0 by omega), Option.map_some]

/-- **Blocks round-trip.** For every list of 1 to 4096 records, with any field values and the
timestamps in any order, the block is written, and wherever the index of a reader finds it, it
decodes to the same list: a transitions block of version 3 to the records with cleared flags, a
samples block to the point observations, and the payload without column 7 under version 2 to the
records without a measurement.

Source: `pgwt_encode_block`, `pgwt_encode_sample_block` (`src/event_writer.c`),
`pgwt_reader_decode_block_info` (`src/event_reader.c`). -/
theorem typedBlock_decodes (lz : Lz4) (period : UInt64) (evs : List TraceEvent)
    (hpos : 1 ≤ evs.length) (hmax : evs.length ≤ blockEvents) :
    (∃ block, typedBlock lz .transitions period evs = some block ∧
      ∀ (r : EventReader) (idx : ℕ) (maxEvents : ℤ), r.version = 3 →
        r.BlockAt idx block → evs.length ≤ maxEvents →
          (decodeBlockInfo lz r idx maxEvents).map Prod.fst =
            some (evs.map TraceEvent.asTransition)) ∧
    (∃ block, typedBlock lz .samples period evs = some block ∧
      ∀ (r : EventReader) (idx : ℕ) (maxEvents : ℤ),
        r.BlockAt idx block → evs.length ≤ maxEvents →
          (decodeBlockInfo lz r idx maxEvents).map Prod.fst =
            some (evs.map TraceEvent.asSample)) ∧
    (∃ block, blockOfPayload lz .transitions period evs (encodeBlockV2 evs) = some block ∧
      ∀ (r : EventReader) (idx : ℕ) (maxEvents : ℤ), r.version = 2 →
        r.BlockAt idx block → evs.length ≤ maxEvents →
          (decodeBlockInfo lz r idx maxEvents).map Prod.fst =
            some (evs.map TraceEvent.asTransitionV2)) := by
  have h3 := length_encodeBlock_le evs
  have hs := length_encodeSampleBlock_le evs
  have h2 := length_encodeBlockV2_le evs
  refine ⟨?_, ?_, ?_⟩
  · exact blockOfPayload_decodes lz .transitions period evs _ _ 3 hpos hmax h3
      (decodeTransitionPayload_encodeBlock (by decide) evs)
  · obtain ⟨block, hblock, -⟩ := blockOfPayload_decodes lz .samples period evs _
      (encodeSampleBlock evs) 3 hpos hmax (by omega) (decodeSamplePayload_encodeSampleBlock evs)
    refine ⟨block, hblock, fun r idx maxEvents hat hle => ?_⟩
    obtain ⟨block', hblock', hdec⟩ := blockOfPayload_decodes lz .samples period evs _
      (encodeSampleBlock evs) r.version hpos hmax (by omega)
      (decodeSamplePayload_encodeSampleBlock evs)
    obtain rfl : block = block' := Option.some.inj (hblock.symm.trans hblock')
    exact hdec r idx maxEvents rfl hat hle
  · exact blockOfPayload_decodes lz .transitions period evs _ _ 2 hpos hmax (by omega)
      (decodeTransitionPayload_encodeBlockV2 (by decide) evs)

/-! ### LZ4 on incompressible data -/

/-- The extension bytes of an LZ4 literal run length. -/
def lz4LengthExt (n : ℕ) : Bytes := List.replicate (n / 255) 255 ++ [UInt8.ofNat (n % 255)]

/-- Read the extension bytes of a run length back. -/
def readLz4LengthExt : Reader ℕ
  | [] => none
  | b :: bs =>
    if b = 255 then (readLz4LengthExt bs).map fun r => (255 + r.1, r.2) else some (b.toNat, bs)

/-- The token and length bytes in front of a literal run. -/
def lz4LiteralPrefix (n : ℕ) : Bytes :=
  if n < 15 then [UInt8.ofNat (16 * n)] else 0xF0 :: lz4LengthExt (n - 15)

/-- The length of a literal run from its token and length bytes. -/
def readLz4LiteralPrefix : Reader ℕ
  | [] => none
  | tok :: bs =>
    if tok.toNat / 16 < 15 then some (tok.toNat / 16, bs)
    else (readLz4LengthExt bs).map fun r => (15 + r.1, r.2)

theorem readLz4LengthExt_replicate (x : ℕ) (hx : x < 255) : (k : ℕ) → (rest : Bytes) →
    readLz4LengthExt (List.replicate k 255 ++ (UInt8.ofNat x :: rest)) = some (255 * k + x, rest)
  | 0, rest => by
    have hb : (UInt8.ofNat x).toNat = x := by
      rw [UInt8.toNat_ofNat']
      omega
    have hne : UInt8.ofNat x ≠ 255 := by
      intro h
      rw [h] at hb
      change 255 = x at hb
      omega
    simp only [List.replicate_zero, List.nil_append, readLz4LengthExt, if_neg hne, hb,
      Nat.mul_zero, Nat.zero_add]
  | k + 1, rest => by
    simp only [List.replicate_succ, List.cons_append, readLz4LengthExt, if_true,
      readLz4LengthExt_replicate x hx k rest, Option.map_some]
    congr 2
    omega

theorem readLz4LiteralPrefix_append (n : ℕ) (rest : Bytes) :
    readLz4LiteralPrefix (lz4LiteralPrefix n ++ rest) = some (n, rest) := by
  by_cases h : n < 15
  · have hb : (UInt8.ofNat (16 * n)).toNat / 16 = n := by
      rw [UInt8.toNat_ofNat']
      omega
    simp only [lz4LiteralPrefix, if_pos h, List.cons_append, List.nil_append,
      readLz4LiteralPrefix, hb]
  · have hext : readLz4LengthExt (lz4LengthExt (n - 15) ++ rest) = some (n - 15, rest) := by
      rw [lz4LengthExt, List.append_assoc]
      have hread := readLz4LengthExt_replicate ((n - 15) % 255) (Nat.mod_lt _ (by decide))
        ((n - 15) / 255) rest
      rw [Nat.div_add_mod] at hread
      exact hread
    have htok : ¬(0xF0 : UInt8).toNat / 16 < 15 := by decide
    simp only [lz4LiteralPrefix, if_neg h, List.cons_append, readLz4LiteralPrefix, if_neg htok,
      hext, Option.map_some]
    congr 2
    omega

theorem length_lz4LiteralPrefix_le (n : ℕ) : (lz4LiteralPrefix n).length ≤ n / 255 + 16 := by
  rw [lz4LiteralPrefix]
  split_ifs
  · simp
  · simp only [List.length_cons, lz4LengthExt, List.length_append, List.length_replicate,
      List.length_nil]
    omega

theorem length_lz4LiteralPrefix_pos (n : ℕ) : 0 < (lz4LiteralPrefix n).length := by
  rw [lz4LiteralPrefix]
  split_ifs <;> simp

/-- LZ4 restricted to blocks of one literal run, which is what the compressor emits for data
without repetitions. -/
def literalLz4 : Lz4 where
  compress src cap :=
    if (lz4LiteralPrefix src.length ++ src).length ≤ cap then
      some (lz4LiteralPrefix src.length ++ src)
    else none
  decompress c cap := do
    let (n, literals) ← readLz4LiteralPrefix c
    if literals.length = n ∧ n ≤ cap then some literals else none
  compress_isSome := by
    intro src cap _ hcap
    have hpre := length_lz4LiteralPrefix_le src.length
    refine ⟨_, if_pos ?_⟩
    rw [List.length_append]
    simp only [lz4CompressBound] at hcap
    omega
  length_compress := by
    intro src cap c h
    have hpos := length_lz4LiteralPrefix_pos src.length
    split_ifs at h with hle
    obtain rfl := Option.some.inj h
    refine ⟨?_, hle⟩
    rw [List.length_append]
    omega
  decompress_compress := by
    intro src cap c n h hn
    split_ifs at h with hle
    obtain rfl := Option.some.inj h
    simp only [readLz4LiteralPrefix_append, Option.bind_eq_bind, Option.bind_some, hn, and_self,
      if_true]

/-- A record whose encoding has no repetition. -/
def plainRecord : TraceEvent where
  timestampNs := 0x0102030405060708
  pid := 0x31323334
  oldEvent := 0x0A424344
  newEvent := 0x03525354
  flags := 0x800
  durationNs := 0x2122232425
  queryId := 0x6162636465666768
  cpuNs := 0x7172737475

/-- One record through a version 3 transitions block at the start of a file. -/
theorem typedBlock_decodes_plainRecord :
    ∃ block, typedBlock literalLz4 .transitions 0 [plainRecord] = some block ∧
      (decodeBlockInfo literalLz4 { file := block, version := 3, blockOffsets := [0] } 0 4096).map
        Prod.fst = some [{ plainRecord with flags := 0 }] := by
  obtain ⟨block, hblock, hdec⟩ :=
    (typedBlock_decodes literalLz4 0 [plainRecord] (by decide) (by decide)).1
  refine ⟨block, hblock, ?_⟩
  exact hdec { file := block, version := 3, blockOffsets := [0] } 0 4096 rfl
    ⟨0, [], rfl, (List.append_nil block).symm⟩ (by decide)

end PgWaitTracer

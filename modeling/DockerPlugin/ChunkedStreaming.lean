import DockerPlugin.ResponseWrites
import DockerPlugin.Library.HttpReaderLaws

namespace DockerPlugin
open Octets Http

namespace HttpConnection

/-- A response sent block by block: `send_data` on each block in order, then `end()`. -/
def stream (c : HttpConnection) (blocks : List Bytes) : HttpConnection := (blocks.foldl sendData c).end_

/-- The data of the chunks that the splitting loop writes. -/
def chunkPayload (data : Bytes) : Nat → Nat → Bytes
  | 0, _ => []
  | fuel + 1, len =>
    if len = 0 then []
    else data.take (min len uint16Max) ++ chunkPayload data fuel (len - min len uint16Max)

theorem decodeChunked_chunkWrites {data : Bytes} {fuel len : Nat} (inside : len ≤ data.length) (rest : Bytes) :
    decodeChunked ((chunkWrites data fuel len).flatten ++ rest) =
      (decodeChunked rest).map fun parts => (chunkPayload data fuel len ++ parts.1, parts.2) := by
  induction fuel generalizing len with
  | zero => simp [chunkWrites, chunkPayload]
  | succ fuel ih =>
    by_cases done : len = 0
    · simp [chunkWrites, chunkPayload, done]
    · have size : (data.take (min len uint16Max)).length = min len uint16Max := by
        rw [List.length_take]
        omega
      have nonempty : data.take (min len uint16Max) ≠ [] := by
        rw [← List.length_pos_iff_ne_nil, size, uint16Max]
        omega
      have shape : (chunkWrites data (fuel + 1) len).flatten ++ rest =
          chunkText (data.take (min len uint16Max)) ++
            ((chunkWrites data fuel (len - min len uint16Max)).flatten ++ rest) := by
        simp only [chunkWrites, if_neg done, chunkText, size, List.cons_append, List.nil_append, List.flatten_cons,
          List.append_assoc]
      rw [shape, decodeChunked_chunk nonempty, ih (by omega), Option.map_map]
      simp only [chunkPayload, if_neg done, List.append_assoc]
      rfl

/-- Every chunk starts again at the front of the block, so the payload repeats it. -/
theorem chunkPayload_getElem? {data : Bytes} {fuel len : Nat} (inside : len ≤ data.length) (enough : len ≤ fuel)
    (i : Nat) : (chunkPayload data fuel len)[i]? = if i < len then data[i % uint16Max]? else none := by
  induction fuel generalizing len i with
  | zero => simp [chunkPayload, show ¬ i < len by omega]
  | succ fuel ih =>
    by_cases done : len = 0
    · simp [chunkPayload, done]
    · have positive : 0 < uint16Max := by decide
      have size : (data.take (min len uint16Max)).length = min len uint16Max := by
        rw [List.length_take]
        omega
      rw [chunkPayload, if_neg done]
      by_cases first : i < min len uint16Max
      · rw [List.getElem?_append_left (by rw [size]; exact first), List.getElem?_take_of_lt first,
          if_pos (by omega), Nat.mod_eq_of_lt (by omega)]
      · rw [List.getElem?_append_right (by rw [size]; omega), size, ih (by omega) (by omega)]
        by_cases within : i < len
        · have full : min len uint16Max = uint16Max := by omega
          rw [full, if_pos (by omega), if_pos within, ← Nat.mod_eq_sub_mod (by omega)]
        · rw [if_neg (by omega), if_neg within]

/-- A block that every later stretch of 65535 bytes repeats from its front; in particular
every block of at most that length. -/
def Periodic (block : Bytes) : Prop := ∀ i, i + uint16Max < block.length → block[i + uint16Max]? = block[i]?

theorem periodic_mod {block : Bytes} (periodic : Periodic block) {i : Nat} (within : i < block.length) :
    block[i % uint16Max]? = block[i]? := by
  induction i using Nat.strongRecOn with
  | ind i ih =>
    by_cases small : i < uint16Max
    · rw [Nat.mod_eq_of_lt small]
    · have positive : 0 < uint16Max := by decide
      have step := periodic (i - uint16Max) (by omega)
      have back : i - uint16Max + uint16Max = i := by omega
      rw [back] at step
      rw [Nat.mod_eq_sub_mod (by omega), ih _ (by omega) (by omega), step]

/-- The data of all chunks of a block. -/
def payload (block : Bytes) : Bytes := chunkPayload block block.length block.length

theorem payload_getElem? (block : Bytes) (i : Nat) :
    (payload block)[i]? = if i < block.length then block[i % uint16Max]? else none :=
  chunkPayload_getElem? le_rfl le_rfl i

theorem payload_length (block : Bytes) : (payload block).length = block.length := by
  have behind : (payload block)[block.length]? = none := by rw [payload_getElem?, if_neg (lt_irrefl _)]
  have upper : (payload block).length ≤ block.length := List.getElem?_eq_none_iff.mp behind
  by_contra different
  have inside : (payload block).length < block.length := by omega
  have found := payload_getElem? block (payload block).length
  have positive : 0 < uint16Max := by decide
  have bound : (payload block).length % uint16Max < block.length := (Nat.mod_le _ _).trans_lt inside
  rw [if_pos inside, List.getElem?_eq_none le_rfl, List.getElem?_eq_getElem bound] at found
  simp at found

/-- The chunks of a block carry the block exactly when it repeats its front. -/
theorem payload_eq_iff (block : Bytes) : payload block = block ↔ Periodic block := by
  constructor
  · intro same i within
    have low := payload_getElem? block i
    have high := payload_getElem? block (i + uint16Max)
    rw [same, if_pos (by omega)] at low
    rw [same, if_pos within, Nat.add_mod_right, ← low] at high
    exact high
  · intro periodic
    apply List.ext_getElem?
    intro i
    rw [payload_getElem?]
    split
    · rename_i within
      exact periodic_mod periodic within
    · rename_i beyond
      exact (List.getElem?_eq_none (by omega)).symm

theorem flatMap_payload_iff (blocks : List Bytes) :
    blocks.flatMap payload = blocks.flatten ↔ ∀ block ∈ blocks, Periodic block := by
  induction blocks with
  | nil => simp
  | cons block blocks ih =>
    rw [List.forall_mem_cons, ← ih, ← payload_eq_iff, List.flatMap_cons, List.flatten_cons]
    constructor
    · exact fun same => List.append_inj same (payload_length block)
    · rintro ⟨first, rest⟩
      rw [first, rest]

/-- The bytes behind the header block of a streamed response. -/
def streamBody (blocks : List Bytes) : Bytes :=
  (blocks.flatMap fun block => (chunkWrites block block.length block.length).flatten) ++ bytes "0\r\n\r\n"

/-- The reference decoder reads a streamed body to its end, and finds the payloads there. -/
theorem decodeChunked_streamBody (blocks : List Bytes) :
    decodeChunked (streamBody blocks) = some (blocks.flatMap payload, []) := by
  induction blocks with
  | nil => exact decodeChunked_last []
  | cons block blocks ih =>
    have shape : streamBody (block :: blocks) =
        (chunkWrites block block.length block.length).flatten ++ streamBody blocks := by
      simp only [streamBody, List.flatMap_cons, List.append_assoc]
    rw [shape, decodeChunked_chunkWrites le_rfl, ih]
    rfl

theorem foldl_sendData_sent {c : HttpConnection} (sent : c.mResponseHeadersSent = true) (blocks : List Bytes) :
    blocks.foldl sendData c = c.withUds (c.uds.writes (blocks.flatMap (dataWrites c.mResponseChunked))) := by
  induction blocks generalizing c with
  | nil => rfl
  | cons block blocks ih =>
    have later := @ih (c.withUds (c.uds.writes (dataWrites c.mResponseChunked block))) sent
    rw [List.foldl_cons, sendData_sent sent, later, List.flatMap_cons, UdsConnection.writes_append]
    rfl

/-- The response headers with which a stream begins. -/
def streamHeaders (c : HttpConnection) : HttpHeaderSet :=
  c.mResponseHeaders.set (bytes "transfer-encoding") (bytes "chunked")

/-- What a streamed response writes: the header block, the chunks of all blocks and the
terminator. -/
theorem stream_eq {c : HttpConnection} {blocks : List Bytes} (unsent : c.mResponseHeadersSent = false)
    (noLength : c.mResponseHeaders.has (bytes "content-length") = false)
    (noCoding : c.mResponseHeaders.has (bytes "transfer-encoding") = false) (nonempty : blocks ≠ []) :
    ∃ buffers, (c.stream blocks).uds = c.uds.writes buffers ∧
      buffers.flatten = headerBlock c.mResponseStatus c.mResponseMessage c.streamHeaders.entries ++
        streamBody blocks := by
  obtain ⟨first, rest, rfl⟩ := List.exists_cons_of_ne_nil nonempty
  have announced : c.announceChunked = c.setResponseHeader (bytes "transfer-encoding") (bytes "chunked") := by
    unfold announceChunked
    rw [noLength, noCoding]
    rfl
  have stillUnsent : c.announceChunked.mResponseHeadersSent = false := by rw [announced]; exact unsent
  let started := c.announceChunked.headersSent (c.announceChunked.uds.writes [c.announceChunked.block])
  have chunked : started.mResponseChunked = true := by
    simp only [started, announced, headersSent, setResponseHeader, HttpHeaderSet.get_set, true_or, decide_true]
  have folded : (first :: rest).foldl sendData c = (first :: rest).foldl sendData started := by
    rw [List.foldl_cons, sendData_unsent unsent, sendHeaders_eq stillUnsent, ← List.foldl_cons]
  have coded : dataWrites started.mResponseChunked = fun block => chunkWrites block block.length block.length := by
    funext block
    rw [chunked, dataWrites, if_pos rfl]
  have sent : (started.withUds (started.uds.writes ((first :: rest).flatMap fun block =>
      chunkWrites block block.length block.length))).mResponseHeadersSent = true := rfl
  refine ⟨[c.announceChunked.block] ++ ((first :: rest).flatMap fun block =>
    chunkWrites block block.length block.length) ++ [bytes "0\r\n\r\n"], ?_, ?_⟩
  · rw [stream, folded, foldl_sendData_sent rfl, coded, end_sent sent, UdsConnection.writes_append,
      UdsConnection.writes_append]
    simp only [withUds, chunked, if_true, cleared_uds]
    simp only [started, announced]
    rfl
  · rw [announced]
    simp only [List.flatten_append, List.flatten_singleton, streamBody, List.append_assoc, block, streamHeaders,
      setResponseHeader, List.flatMap, List.flatten_flatten, List.map_map]
    rfl

/-- The blocks are on the wire behind a header block that announces the chunked coding, and
the reference decoder reads them back to the last byte. -/
def StreamedWhole (c : HttpConnection) (blocks : List Bytes) : Prop :=
  c.streamHeaders.getAll (bytes "transfer-encoding") = [bytes "chunked"] ∧
    ∃ body, (c.stream blocks).uds.accepted = c.uds.accepted ++
        headerBlock c.mResponseStatus c.mResponseMessage c.streamHeaders.entries ++ body ∧
      decodeChunked body = some (blocks.flatten, [])

theorem stream_accepted {c : HttpConnection} {blocks : List Bytes} (healthy : c.uds.Healthy)
    (unsent : c.mResponseHeadersSent = false)
    (noLength : c.mResponseHeaders.has (bytes "content-length") = false)
    (noCoding : c.mResponseHeaders.has (bytes "transfer-encoding") = false) (nonempty : blocks ≠ []) :
    (c.stream blocks).uds.accepted = c.uds.accepted ++
      headerBlock c.mResponseStatus c.mResponseMessage c.streamHeaders.entries ++ streamBody blocks := by
  obtain ⟨buffers, sent, text⟩ := stream_eq unsent noLength noCoding nonempty
  rw [sent, (UdsConnection.writes_healthy healthy buffers).2, text, List.append_assoc]

theorem StreamedWhole.periodic {c : HttpConnection} {blocks : List Bytes} (whole : c.StreamedWhole blocks)
    (healthy : c.uds.Healthy) (unsent : c.mResponseHeadersSent = false)
    (noLength : c.mResponseHeaders.has (bytes "content-length") = false)
    (noCoding : c.mResponseHeaders.has (bytes "transfer-encoding") = false) (nonempty : blocks ≠ []) :
    ∀ block ∈ blocks, Periodic block := by
  obtain ⟨_, body, onWire, read⟩ := whole
  have wire := stream_accepted healthy unsent noLength noCoding nonempty
  have same : streamBody blocks = body := List.append_cancel_left (wire.symm.trans onWire)
  rw [← same, decodeChunked_streamBody] at read
  exact (flatMap_payload_iff blocks).mp (congrArg Prod.fst (Option.some.inj read))

/-- Streaming is lossless exactly for blocks that repeat their first 65535 bytes: the loop of
`send_data` advances the remaining length and not the data. -/
theorem stream_whole_iff {c : HttpConnection} {blocks : List Bytes} (healthy : c.uds.Healthy)
    (unsent : c.mResponseHeadersSent = false)
    (noLength : c.mResponseHeaders.has (bytes "content-length") = false)
    (noCoding : c.mResponseHeaders.has (bytes "transfer-encoding") = false) (nonempty : blocks ≠ []) :
    c.StreamedWhole blocks ↔ ∀ block ∈ blocks, Periodic block := by
  refine ⟨fun whole => whole.periodic healthy unsent noLength noCoding nonempty, fun periodic => ?_⟩
  refine ⟨HttpHeaderSet.getAll_set _ _ _, streamBody blocks, ?_, ?_⟩
  · exact stream_accepted healthy unsent noLength noCoding nonempty
  · rw [decodeChunked_streamBody, (flatMap_payload_iff blocks).mpr periodic]

theorem stream_whole_short_blocks :
    (create ⟨3, fun _ => .accepts 1, []⟩).StreamedWhole [bytes "docker", [], bytes "plugin"] := by
  refine (stream_whole_iff ⟨by decide, by simp [create]⟩ rfl rfl rfl (by decide)).mpr ?_
  intro block member i within
  have short : block.length ≤ 6 := by
    have all : ∀ block ∈ [bytes "docker", [], bytes "plugin"], block.length ≤ 6 := by decide
    exact all block member
  simp only [uint16Max] at within
  omega

theorem not_periodic_of_new_byte {a b : UInt8} (different : a ≠ b) :
    ¬ Periodic (List.replicate uint16Max a ++ [b]) := by
  intro periodic
  have last := periodic 0 (by rw [List.length_append, List.length_replicate, List.length_singleton]; omega)
  rw [Nat.zero_add, List.getElem?_append_right (by rw [List.length_replicate]), List.length_replicate, Nat.sub_self,
    List.getElem?_append_left (by rw [List.length_replicate]; decide), List.getElem?_replicate_of_lt (by decide)] at last
  exact different (Option.some.inj last).symm

/-- One block of 65536 bytes whose last byte is unlike all the others: that byte is lost. -/
theorem stream_loses_last_byte :
    (create ⟨3, fun _ => .accepts 1, []⟩).uds.Healthy ∧
      ¬(create ⟨3, fun _ => .accepts 1, []⟩).StreamedWhole [List.replicate uint16Max 0 ++ [1]] := by
  have healthy : (create ⟨3, fun _ => .accepts 1, []⟩).uds.Healthy := ⟨by decide, by simp [create]⟩
  refine ⟨healthy, fun whole => ?_⟩
  have periodic := whole.periodic healthy rfl rfl rfl (List.cons_ne_nil _ _)
  exact not_periodic_of_new_byte (by decide) (periodic _ List.mem_cons_self)

end HttpConnection

end DockerPlugin

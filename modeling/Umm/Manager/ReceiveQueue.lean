import Mathlib.Data.List.Basic
import Umm.Foundations.Run
import Umm.Manager.Instance

/-!
# The receive queue

`WritePacket` puts a packet at the end of the receive queue of an instance, and `ReadPacket` takes
bytes off its front.  A packet is a chain of buffers.  `ReadPacket` compares the size of the read with
the length of the whole chain, but a partial read copies from the data pointer of the first buffer
and advances that buffer only.  Therefore a buffer here is the memory behind its data pointer, which
does not end with the buffer, and a length.
-/

namespace Umm

open Foundations

/-- One buffer of a chain. -/
structure Buffer where
  /-- The memory from the data pointer on. -/
  data : ℕ → UInt8
  /-- `Length`. -/
  length : UInt64

namespace Buffer

/-- The contents of the buffer. -/
def bytes (b : Buffer) : List UInt8 :=
  (List.range b.length.toNat).map b.data

/-- `Advance`: the data pointer moves, and the length wraps around when it moves beyond the end. -/
def advance (b : Buffer) (len : UInt64) : Buffer :=
  ⟨fun i => b.data (i + len.toNat), b.length - len⟩

end Buffer

/-- A packet: a chain of at least one buffer. -/
structure Chain where
  /-- The first buffer. -/
  first : Buffer
  /-- The buffers behind it. -/
  rest : List Buffer

namespace Chain

/-- The buffers of the chain. -/
def buffers (c : Chain) : List Buffer :=
  c.first :: c.rest

/-- The contents of the packet. -/
def bytes (c : Chain) : List UInt8 :=
  c.buffers.flatMap Buffer.bytes

/-- `ComputeChainDataLength`. -/
def computeChainDataLength (c : Chain) : UInt64 :=
  c.buffers.foldl (fun len b => len + b.length) 0

/-- `GetDataPointer().Data()`. -/
def dataPointer (c : Chain) : ℕ → UInt8 :=
  c.first.data

/-- `Advance`. -/
def advance (c : Chain) (len : UInt64) : Chain :=
  { c with first := c.first.advance len }

/-- The packet as the scheduler's model has it. -/
def toIOBuf (c : Chain) : IOBuf :=
  c.buffers.map Buffer.bytes

end Chain

/-- `raw_to_iobuf`: a new buffer of `len` bytes, copied from `data`. -/
def rawToIobuf (data : ℕ → UInt8) (len : UInt64) : Chain :=
  ⟨⟨fun i => if i < len.toNat then data i else 0, len⟩, []⟩

/-- `umi_recv_queue_`. -/
abbrev ReceiveQueue := List Chain

namespace ReceiveQueue

/-- `HasData`. -/
def hasData (queue : ReceiveQueue) : Bool :=
  !queue.isEmpty

/-- The part of `WritePacket` that concerns the queue. -/
def writePacket (queue : ReceiveQueue) (buf : Chain) : ReceiveQueue :=
  queue ++ [buf]

/-- `ReadPacket`: what it returns, and the queue it leaves. -/
def readPacket (queue : ReceiveQueue) (len : UInt64) : Option Chain × ReceiveQueue :=
  match queue with
  | [] => (none, [])
  | front :: rest =>
    if front.computeChainDataLength ≤ len then (some front, rest)
    else (some (rawToIobuf front.dataPointer len), front.advance len :: rest)

/-- What `solo5_hypercall_netread` writes to its argument. -/
structure NetreadResult where
  /-- `ret`: 0 for a successful read. -/
  ret : ℕ
  /-- `len`: the size of the read, then the number of bytes that were read. -/
  len : UInt64
  /-- The bytes that are copied to the guest. -/
  data : List UInt8
deriving DecidableEq, Repr

/-- `solo5_hypercall_netread`; `none` stands for a `kbugon`. -/
def netread (queue : ReceiveQueue) (len : UInt64) : Option (NetreadResult × ReceiveQueue) :=
  if queue.hasData then
    match queue.readPacket len with
    | (none, _) => none
    | (some buf, rest) =>
      let buflen := buf.computeChainDataLength
      if len < buflen then none
      else some (⟨0, buflen, buf.bytes.take buflen.toNat⟩, rest)
  else some (⟨1, len, []⟩, queue)

/-- The bytes in the queue. -/
def bytes (queue : ReceiveQueue) : List UInt8 :=
  queue.flatMap Chain.bytes

/-- The bytes that `ReadPacket` returns. -/
def readBytes (queue : ReceiveQueue) (len : UInt64) : List UInt8 :=
  ((queue.readPacket len).1.map Chain.bytes).getD []

/-- A read shorter than the front packet does not reach beyond its first buffer. -/
def readsFirst (queue : ReceiveQueue) (len : UInt64) : Bool :=
  queue.head?.all fun front => front.computeChainDataLength ≤ len || len ≤ front.first.length

end ReceiveQueue

/-! ## Buffers -/

section Buffers

variable {b : Buffer} {c : Chain} {len : UInt64}

theorem Buffer.length_bytes (b : Buffer) : b.bytes.length = b.length.toNat := by
  simp [Buffer.bytes]

/-- A copy has the bytes it was made of. -/
theorem bytes_rawToIobuf (data : ℕ → UInt8) (len : UInt64) :
    (rawToIobuf data len).bytes = (List.range len.toNat).map data := by
  have hcopy : (rawToIobuf data len).bytes =
      (List.range len.toNat).map (fun i => if i < len.toNat then data i else 0) := by
    simp [rawToIobuf, Chain.bytes, Chain.buffers, Buffer.bytes]
  rw [hcopy]
  exact List.map_congr_left fun i hi => if_pos (List.mem_range.mp hi)

/-- Reading no further than the end of the buffer. -/
theorem Buffer.range_map_data (h : len ≤ b.length) :
    (List.range len.toNat).map b.data = b.bytes.take len.toNat := by
  have hle : len.toNat ≤ b.length.toNat := UInt64.le_iff_toNat_le.mp h
  rw [Buffer.bytes, ← List.map_take, List.take_range, Nat.min_eq_left hle]

/-- Advancing no further than the end of the buffer. -/
theorem Buffer.bytes_advance (h : len ≤ b.length) :
    (b.advance len).bytes = b.bytes.drop len.toNat := by
  have hlength : (b.length - len).toNat = b.length.toNat - len.toNat :=
    UInt64.toNat_sub_of_le _ _ h
  refine List.ext_getElem ?_ fun i hi _ => ?_
  · simp [Buffer.bytes, Buffer.advance, hlength]
  · simp [Buffer.bytes, Buffer.advance, Nat.add_comm]

/-- Advancing beyond the end of the buffer. -/
theorem Buffer.length_advance (h : b.length < len) :
    (b.advance len).length.toNat + len.toNat = b.length.toNat + UInt64.size := by
  have hlt : b.length.toNat < len.toNat := UInt64.lt_iff_toNat_lt.mp h
  have hsize : len.toNat < UInt64.size := len.toNat_lt_size
  have hsub : (b.advance len).length.toNat =
      (UInt64.size - len.toNat + b.length.toNat) % UInt64.size := UInt64.toNat_sub _ _
  rw [hsub, Nat.mod_eq_of_lt (by omega)]
  omega

theorem Chain.bytes_eq (c : Chain) :
    c.bytes = c.first.bytes ++ c.rest.flatMap Buffer.bytes := by
  simp [Chain.bytes, Chain.buffers]

/-- A partial read within the first buffer takes the next bytes of the packet. -/
theorem Chain.bytes_read (h : len ≤ c.first.length) :
    (rawToIobuf c.dataPointer len).bytes = c.bytes.take len.toNat := by
  have hle : len.toNat ≤ c.first.bytes.length := by
    rw [Buffer.length_bytes]
    exact UInt64.le_iff_toNat_le.mp h
  rw [bytes_rawToIobuf, Chain.dataPointer, Buffer.range_map_data h, Chain.bytes_eq,
    List.take_append_of_le_length hle]

/-- A partial read within the first buffer leaves the other bytes of the packet. -/
theorem Chain.bytes_advance (h : len ≤ c.first.length) :
    (c.advance len).bytes = c.bytes.drop len.toNat := by
  have hle : len.toNat ≤ c.first.bytes.length := by
    rw [Buffer.length_bytes]
    exact UInt64.le_iff_toNat_le.mp h
  rw [Chain.bytes_eq, Chain.bytes_eq, Chain.advance, Buffer.bytes_advance h,
    List.drop_append_of_le_length hle]

/-- A partial read beyond the first buffer does not preserve the number of bytes. -/
theorem Chain.length_overread (h : c.first.length < len) :
    (rawToIobuf c.dataPointer len).bytes.length + (c.advance len).bytes.length =
      c.bytes.length + UInt64.size := by
  have hadvance := Buffer.length_advance h
  have hchain : (c.advance len).bytes.length =
      (c.first.advance len).length.toNat + (c.rest.flatMap Buffer.bytes).length := by
    rw [Chain.bytes_eq, List.length_append, ← Buffer.length_bytes]
    rfl
  rw [bytes_rawToIobuf, hchain, Chain.bytes_eq, List.length_append, Buffer.length_bytes,
    List.length_map, List.length_range]
  omega

end Buffers

/-! ## Reads -/

namespace ReceiveQueue

variable {queue : ReceiveQueue} {front : Chain} {rest : List Chain} {len : UInt64}

theorem readPacket_of_le (h : front.computeChainDataLength ≤ len) :
    readPacket (front :: rest) len = (some front, rest) :=
  if_pos h

theorem readPacket_of_lt (h : len < front.computeChainDataLength) :
    readPacket (front :: rest) len =
      (some (rawToIobuf front.dataPointer len), front.advance len :: rest) :=
  if_neg (UInt64.not_le.mpr h)

theorem le_first_of_readsFirst (hfirst : readsFirst (front :: rest) len = true)
    (h : len < front.computeChainDataLength) : len ≤ front.first.length := by
  have hnot : ¬ front.computeChainDataLength ≤ len := UInt64.not_le.mpr h
  simpa [readsFirst, hnot] using hfirst

/-- A read that respects the first buffer takes the bytes it returns off the front of the queue. -/
theorem readBytes_append (hfirst : queue.readsFirst len = true) :
    queue.readBytes len ++ bytes (queue.readPacket len).2 = queue.bytes := by
  cases queue with
  | nil => rfl
  | cons front rest =>
    by_cases h : front.computeChainDataLength ≤ len
    · rw [readBytes, readPacket_of_le h]
      rfl
    · have hlt : len < front.computeChainDataLength := UInt64.not_le.mp h
      have hle : len ≤ front.first.length := le_first_of_readsFirst hfirst hlt
      rw [readBytes, readPacket_of_lt hlt]
      change (rawToIobuf front.dataPointer len).bytes ++ ((front.advance len).bytes ++ bytes rest) =
        front.bytes ++ bytes rest
      rw [Chain.bytes_read hle, Chain.bytes_advance hle, ← List.append_assoc, List.take_append_drop]

/-- Any other read does not preserve the number of bytes. -/
theorem length_readBytes_append (hfirst : queue.readsFirst len = false) :
    (queue.readBytes len).length + (bytes (queue.readPacket len).2).length =
      queue.bytes.length + UInt64.size := by
  cases queue with
  | nil => cases hfirst
  | cons front rest =>
    have hbeyond : ¬ front.computeChainDataLength ≤ len ∧ ¬ len ≤ front.first.length := by
      simpa [readsFirst] using hfirst
    have hover := Chain.length_overread (UInt64.not_le.mp hbeyond.2)
    have hbytes : ∀ c : Chain, (bytes (c :: rest)).length = c.bytes.length + (bytes rest).length := by
      intro c
      exact List.length_append
    rw [readBytes, readPacket_of_lt (UInt64.not_le.mp hbeyond.1), hbytes, hbytes]
    change (rawToIobuf front.dataPointer len).bytes.length + _ = _
    omega

/-- The hypercall never stops the core: what `ReadPacket` returns fits the guest's buffer. -/
theorem netread_isSome (queue : ReceiveQueue) (len : UInt64) : (queue.netread len).isSome = true := by
  cases queue with
  | nil => rfl
  | cons front rest =>
    unfold netread
    by_cases h : front.computeChainDataLength ≤ len
    · have hfits : ¬ len < front.computeChainDataLength := UInt64.not_lt.mpr h
      simp [hasData, readPacket_of_le h, hfits]
    · have hlength : (rawToIobuf front.dataPointer len).computeChainDataLength = len := by
        simp [Chain.computeChainDataLength, Chain.buffers, rawToIobuf]
      simp [hasData, readPacket_of_lt (UInt64.not_le.mp h), hlength]

/-- The lengths of the buffers add up, as long as the sum fits. -/
theorem toNat_computeChainDataLength (c : Chain) :
    c.computeChainDataLength.toNat = c.toIOBuf.computeChainDataLength % UInt64.size := by
  have hfold : ∀ (bs : List Buffer) (len : UInt64) (n : ℕ), len.toNat = n % UInt64.size →
      (bs.foldl (fun len b => len + b.length) len).toNat =
        (bs.map Buffer.bytes).foldl (fun len first => len + first.length) n % UInt64.size := by
    intro bs
    induction bs with
    | nil => exact fun len n h => h
    | cons b bs ih =>
      intro len n h
      refine ih (len + b.length) (n + b.bytes.length) ?_
      have hadd : (len + b.length).toNat = (len.toNat + b.length.toNat) % UInt64.size :=
        UInt64.toNat_add _ _
      rw [hadd, Buffer.length_bytes, h, Nat.mod_add_mod]
  exact hfold c.buffers 0 0 rfl

/-- What the scheduler's model has of a read that respects the first buffer. -/
theorem umiRecvQueue_readPacket {x : UmInstance} (hx : x.umiRecvQueue = queue.map Chain.toIOBuf)
    (hfirst : queue.readsFirst len = true)
    (hfits : ∀ front ∈ queue.head?, front.toIOBuf.computeChainDataLength < UInt64.size) :
    (x.readPacket len.toNat).umiRecvQueue = (queue.readPacket len).2.map Chain.toIOBuf := by
  cases queue with
  | nil =>
    rw [UmInstance.readPacket, hx]
    exact hx
  | cons front rest =>
    have hlength : front.computeChainDataLength.toNat = front.toIOBuf.computeChainDataLength := by
      rw [toNat_computeChainDataLength, Nat.mod_eq_of_lt (hfits front rfl)]
    rw [UmInstance.readPacket, hx]
    simp only [List.map_cons, ← hlength, ← UInt64.le_iff_toNat_le]
    by_cases h : front.computeChainDataLength ≤ len
    · rw [if_pos h, readPacket_of_le h]
    · have hlt : len < front.computeChainDataLength := UInt64.not_le.mp h
      have hadvance : (front.advance len).toIOBuf = front.toIOBuf.advance len.toNat := by
        have hbytes := Buffer.bytes_advance (le_first_of_readsFirst hfirst hlt)
        exact congrArg (· :: front.rest.map Buffer.bytes) hbytes
      rw [if_neg h, readPacket_of_lt hlt, ← hadvance]
      rfl

end ReceiveQueue

/-! ## Runs -/

/-- The queue and what went through it. -/
structure Deliveries where
  /-- The queue. -/
  queue : ReceiveQueue
  /-- Log of the bytes that were written. -/
  written : List UInt8
  /-- Log of the bytes that the reads returned. -/
  returned : List UInt8

/-- A call that concerns the queue. -/
inductive QueueStep where
  /-- `WritePacket`. -/
  | write (buf : Chain)
  /-- `ReadPacket`. -/
  | read (len : UInt64)

namespace Deliveries

/-- A queue nothing has been written to. -/
def init : Deliveries :=
  ⟨[], [], []⟩

/-- What a call does. -/
def step (s : Deliveries) : QueueStep → Option Deliveries
  | .write buf =>
    some { s with
      queue := s.queue.writePacket buf
      written := s.written ++ buf.bytes }
  | .read len =>
    some { s with
      queue := (s.queue.readPacket len).2
      returned := s.returned ++ s.queue.readBytes len }

/-- Every byte that was written has been returned or is queued, once and in order. -/
def Delivered (s : Deliveries) : Prop :=
  s.returned ++ s.queue.bytes = s.written

/-- A read shorter than the front packet returns the next bytes of that packet, and leaves the
others. -/
def ReadsFront (s : Deliveries) : QueueStep → Prop
  | .write _ => True
  | .read len =>
    ∀ front rest, s.queue = front :: rest → len < front.computeChainDataLength →
      s.queue.readBytes len = front.bytes.take len.toNat ∧
        ∃ front', (s.queue.readPacket len).2 = front' :: rest ∧
          front'.bytes = front.bytes.drop len.toNat

/-- A read shorter than the front packet does not reach beyond its first buffer. -/
def readsFirst (s : Deliveries) : QueueStep → Bool
  | .write _ => true
  | .read len => s.queue.readsFirst len

section Steps

variable {s t : Deliveries} {a : QueueStep}

theorem readsFront_of_readsFirst (h : s.readsFirst a = true) : s.ReadsFront a := by
  cases a with
  | write buf => trivial
  | read len =>
    intro front rest hqueue hlen
    have hfirst : s.queue.readsFirst len = true := h
    rw [hqueue] at hfirst ⊢
    have hle := ReceiveQueue.le_first_of_readsFirst hfirst hlen
    rw [ReceiveQueue.readBytes, ReceiveQueue.readPacket_of_lt hlen]
    exact ⟨Chain.bytes_read hle, _, rfl, Chain.bytes_advance hle⟩

/-- A call that respects the first buffer keeps the bytes and their order. -/
theorem Delivered.step (h : s.Delivered) (hfirst : s.readsFirst a = true)
    (hstep : s.step a = some t) : t.Delivered := by
  cases a with
  | write buf =>
    obtain rfl := Option.some.inj hstep
    change s.returned ++ (s.queue ++ [buf]).flatMap Chain.bytes = s.written ++ buf.bytes
    rw [List.flatMap_append, ← List.append_assoc, List.flatMap_singleton]
    exact congrArg (· ++ buf.bytes) h
  | read len =>
    obtain rfl := Option.some.inj hstep
    change (s.returned ++ s.queue.readBytes len) ++ _ = s.written
    rw [List.append_assoc, ReceiveQueue.readBytes_append hfirst]
    exact h

/-- Any other call changes the number of bytes. -/
theorem not_delivered_step (h : s.Delivered) (hfirst : s.readsFirst a ≠ true) :
    ∃ t, s.step a = some t ∧ ¬ t.Delivered := by
  cases a with
  | write buf => exact absurd rfl hfirst
  | read len =>
    refine ⟨_, rfl, fun ht => ?_⟩
    have hlength := ReceiveQueue.length_readBytes_append (Bool.eq_false_iff.mpr hfirst)
    have hbefore := congrArg List.length h
    have hafter : ((s.returned ++ s.queue.readBytes len) ++
        ReceiveQueue.bytes (s.queue.readPacket len).2).length = s.written.length :=
      congrArg List.length ht
    rw [List.length_append] at hbefore
    rw [List.length_append, List.length_append] at hafter
    have hpos : 0 < UInt64.size := by decide
    omega

end Steps

/-- In every run of writes and reads, the bytes returned and the bytes queued are always the bytes
written, in order, and reads shorter than the front packet take its next bytes, exactly when no such
read reaches beyond the first buffer of that packet. -/
theorem delivered_iff (as : List QueueStep) :
    AllStates step Delivered init as ∧ AllSteps step ReadsFront init as ↔
      AllSteps step (fun s a => s.readsFirst a = true) init as := by
  have hinit : init.Delivered := rfl
  have hkeep : ∀ s a t, s.readsFirst a = true → Delivered s → s.step a = some t → Delivered t :=
    fun s a t ha hs ht => hs.step ha ht
  constructor
  · rintro ⟨hstates, hsteps⟩
    exact allSteps_of_allStates (fun s a t _ => hkeep s a t)
      (fun s a _ hs ha => not_delivered_step hs ha) hinit hsteps hstates
  · intro hfirst
    exact ⟨allStates_of_invariant (fun _ h => h) hkeep hinit hfirst,
      hfirst.mono fun s a ha => readsFront_of_readsFirst ha⟩

/-- A packet of two buffers of 16 bytes, the first one followed by zeros in memory, is read 20 bytes
at a time: the last four bytes returned are not in the packet. -/
theorem not_delivered_of_two_buffers : ∃ t, Foundations.run step init
    [.write ⟨⟨fun i => if i < 16 then 1 else 0, 16⟩, [⟨fun _ => 2, 16⟩]⟩, .read 20] = some t ∧
    ¬ t.Delivered := by
  refine ⟨_, rfl, fun h => ?_⟩
  have hprefix := congrArg (List.take 20) h
  rw [List.take_append_of_le_length (by decide)] at hprefix
  revert hprefix
  decide

end Deliveries

end Umm

/-
**DMA requests.**

`DMASequencer` of `mem/ruby/system/DMASequencer.cc`: a request is issued in chunks of at most a line, the next one when
the answer of the one before it arrives. The request is in a table under its first line.

* The lengths and the counters are `int`s, and a line has up to 2^31 bytes: the differences that are compared with
  the size of a line are unsigned then, and a negative one is greater.
* A call leaves at most one message in the mandatory queue, which it returns, or it hands a packet back
  (`ruby_hit_callback`).
* The array of a request is that of its packet, which is not null.

### Serving a request

`serve` answers each chunk with the line that it asks for, under the address of that line, until a packet is handed
back. `Served` is that a request that is issued is served by its own chunks, one behind the other, and leaves the
sequencer as it was.

The table has a request under its first line only. `served_iff`: a request is served if and only if it does not leave
this line. A chunk of another line finds no request, or the request that starts there (`serve_keeps`).
-/

import Emas.Gem5.FunctionalAccess
import Emas.Ruby.Sequencer

namespace Emas.Ruby

open Gem5

/-- The parameters of a DMA sequencer. -/
structure DMASettings where
  blockBits : Nat
  maxOutstandingRequests : Nat
  blockBits_le : blockBits ≤ 31

/-- `enumeration( SequencerRequestType )`, as far as the sequencer uses it. -/
inductive DMASequencerType where
  | LD | ST
  deriving DecidableEq, Repr

/-- `SequencerMsg`, with its bytes. -/
structure DMASequencerMsg where
  physicalAddress : Addr
  lineAddress : Addr
  type : DMASequencerType
  len : Nat
  dataBlk : DataBlock

/-- `struct DMARequest`. -/
structure DMARequest where
  start_paddr : Addr
  len : Nat
  write : Bool
  bytes_completed : Nat
  bytes_issued : Nat
  data : List UInt8
  pkt : Packet

/-- `class DMASequencer`. -/
structure DMASequencer where
  requestTable : Addr → Option DMARequest
  outstandingCount : Nat

/-- The assertions, by what they are about. -/
inductive DMAFailure where
  /-- `assert( m_outstanding_count < m_max_outstanding_requests )`, or `<=` in `issueNext`. -/
  | outstanding
  /-- `assert( i != m_RequestTable.end( ) )` -/
  | noRequest
  /-- `assert( ( msg->getPhysicalAddress( ) & m_data_block_mask ) == 0 )` -/
  | notAligned
  /-- `assert( !active_request.write )` -/
  | writes
  /-- `assert( offset + len <= RubySystem::getBlockSizeBytes( ) )` of a data block -/
  | beyondBlock
  /-- `memcpy` past the end of the packet -/
  | outOfBounds
  deriving DecidableEq, Repr

/-- What `issueNext` does: the next message, or a packet that is handed back. -/
inductive DMAEffect where
  | issues (msg : DMASequencerMsg)
  | completes (pkt : Packet)

namespace DMASequencer

variable (settings : DMASettings) (s : DMASequencer)

/-- `RubySystem::getBlockSizeBytes( )`. -/
def blockSize : Nat := 2 ^ settings.blockBits

/-- An address and `m_data_block_mask`. -/
def blockOffset (addr : Addr) : Nat := (addr &&& ones settings.blockBits).toNat

/-- The data of a message: a write puts its bytes into a line, at their offset. -/
def messageData (write : Bool) (data : List UInt8) (offset len : Nat) : Option DataBlock :=
  if write then DataBlock.clear.setData (blockSize settings) data offset len else some DataBlock.clear

/-- `makeRequest( pkt )`. -/
def makeRequest (pkt : Packet) : Except DMAFailure (RequestStatus × Option DMASequencerMsg × DMASequencer) :=
  if s.outstandingCount = settings.maxOutstandingRequests then .ok (.bufferFull, none, s)
  else if ¬s.outstandingCount < settings.maxOutstandingRequests then .error .outstanding
  else
    let lineAddr := makeLineAddress settings.blockBits pkt.addr
    match s.requestTable lineAddr with
    | some _ => .ok (.aliased, none, s)
    | none =>
      let offset := blockOffset settings pkt.addr
      let len := if offset + pkt.size ≤ blockSize settings then pkt.size else blockSize settings - offset
      match messageData settings pkt.isWrite pkt.data offset len with
      | none => .error .beyondBlock
      | some dataBlk =>
        let active : DMARequest := ⟨pkt.addr, pkt.size, pkt.isWrite, 0, len, pkt.data, pkt⟩
        .ok (.issued, some ⟨pkt.addr, lineAddr, if pkt.isWrite then .ST else .LD, len, dataBlk⟩,
          ⟨Function.update s.requestTable lineAddr (some active), s.outstandingCount + 1⟩)

/-- `issueNext( address )`. -/
def issueNext (address : Addr) : Except DMAFailure (DMAEffect × DMASequencer) :=
  match s.requestTable address with
  | none => .error .noRequest
  | some active =>
    if ¬s.outstandingCount ≤ settings.maxOutstandingRequests then .error .outstanding
    else
      let completed := active.bytes_issued
      if active.len = completed then
        .ok (.completes { active.pkt with data := active.data },
          ⟨Function.update s.requestTable address none, s.outstandingCount - 1⟩)
      else
        let physicalAddress := active.start_paddr + BitVec.ofNat 64 completed
        if blockOffset settings physicalAddress ≠ 0 then .error .notAligned
        else
          let left := active.len - completed
          let len := if completed ≤ active.len ∧ left < blockSize settings then left else blockSize settings
          match messageData settings active.write (active.data.drop completed) 0 len with
          | none => .error .beyondBlock
          | some dataBlk =>
            let active := { active with bytes_completed := completed, bytes_issued := completed + len }
            .ok (.issues ⟨physicalAddress, makeLineAddress settings.blockBits physicalAddress,
                if active.write then .ST else .LD, len, dataBlk⟩,
              ⟨Function.update s.requestTable address (some active), s.outstandingCount⟩)

/-- `dataCallback( dblk, address )`. -/
def dataCallback (dblk : DataBlock) (address : Addr) : Except DMAFailure (DMAEffect × DMASequencer) :=
  match s.requestTable address with
  | none => .error .noRequest
  | some active =>
    let len := active.bytes_issued - active.bytes_completed
    let offset := if active.bytes_completed = 0 then blockOffset settings active.start_paddr else 0
    if active.write then .error .writes
    else
      match dblk.getData (blockSize settings) offset len with
      | none => .error .beyondBlock
      | some bytes =>
        match memcpy active.data active.bytes_completed bytes 0 len with
        | none => .error .outOfBounds
        | some data =>
          issueNext settings ⟨Function.update s.requestTable address (some { active with data := data }),
            s.outstandingCount⟩ address

/-- `ackCallback( address )`. -/
def ackCallback (address : Addr) : Except DMAFailure (DMAEffect × DMASequencer) :=
  match s.requestTable address with
  | none => .error .noRequest
  | some _ => issueNext settings s address

/-! ### Serving a request -/

/-- The line at an address. -/
def lineOf (mem : Addr → UInt8) (line : Addr) : DataBlock := fun i => mem (line + BitVec.ofNat 64 i)

/-- The answer to a chunk: its line, under the address of that line. -/
def answer (mem : Addr → UInt8) (msg : DMASequencerMsg) : Except DMAFailure (DMAEffect × DMASequencer) :=
  match msg.type with
  | .LD => s.dataCallback settings (lineOf mem msg.lineAddress) msg.lineAddress
  | .ST => s.ackCallback settings msg.lineAddress

/-- The chunks that are answered until a packet is handed back, the packet and the sequencer then. -/
def serve (mem : Addr → UInt8) : Nat → DMASequencerMsg → DMASequencer →
    Option (List DMASequencerMsg × Packet × DMASequencer)
  | 0, _, _ => none
  | turns + 1, msg, s =>
    match s.answer settings mem msg with
    | .error _ => none
    | .ok (.completes pkt, s) => some ([msg], pkt, s)
    | .ok (.issues next, s) => (serve mem turns next s).map fun (msgs, pkt, s) => (msg :: msgs, pkt, s)

/-- The chunks are the bytes from an address on, in order, and none of them crosses a line. -/
def Splits : Addr → Nat → List DMASequencerMsg → Prop
  | _, len, [] => len = 0
  | start, len, msg :: rest =>
    msg.physicalAddress = start ∧ msg.lineAddress = makeLineAddress settings.blockBits start ∧ msg.len ≤ len ∧
      blockOffset settings start + msg.len ≤ blockSize settings ∧
      Splits (start + BitVec.ofNat 64 msg.len) (len - msg.len) rest

/-- The packet after it was served: a read has the bytes of the memory. -/
def servedPacket (mem : Addr → UInt8) (pkt : Packet) : Packet :=
  if pkt.isWrite then pkt
  else { pkt with data := (List.range pkt.size).map fun i => mem (pkt.addr + BitVec.ofNat 64 i) }

/-- The request is issued and served by its chunks, and leaves the sequencer as it was. -/
def Served (mem : Addr → UInt8) (pkt : Packet) : Prop :=
  ∃ msg issued turns msgs, s.makeRequest settings pkt = .ok (.issued, some msg, issued) ∧
    serve settings mem turns msg issued = some (msgs, servedPacket mem pkt, s) ∧ Splits settings pkt.addr pkt.size msgs

variable {settings} {s}

theorem toNat_mask : (ones settings.blockBits).toNat = 2 ^ settings.blockBits - 1 :=
  toNat_ones (Nat.lt_of_le_of_lt settings.blockBits_le (by decide))

theorem blockOffset_eq (addr : Addr) : blockOffset settings addr = addr.toNat % blockSize settings := by
  rw [blockOffset, BitVec.toNat_and, toNat_mask, Nat.and_two_pow_sub_one_eq_mod, blockSize]

theorem blockOffset_lt (addr : Addr) : blockOffset settings addr < blockSize settings := by
  rw [blockOffset_eq]
  exact Nat.mod_lt _ (Nat.two_pow_pos _)

theorem toNat_makeLineAddress (addr : Addr) : (makeLineAddress settings.blockBits addr).toNat
    = addr.toNat / blockSize settings * blockSize settings :=
  toNat_and_not_low addr toNat_mask

theorem blockSize_le : blockSize settings ≤ 2 ^ 31 := Nat.pow_le_pow_right Nat.zero_lt_two settings.blockBits_le

theorem line_add_offset (addr : Addr) :
    makeLineAddress settings.blockBits addr + BitVec.ofNat 64 (blockOffset settings addr) = addr := by
  apply BitVec.eq_of_toNat_eq
  have whole := Nat.div_add_mod' addr.toNat (blockSize settings)
  rw [BitVec.toNat_add, BitVec.toNat_ofNat, toNat_makeLineAddress, blockOffset_eq, Nat.add_mod_mod, whole,
    Nat.mod_eq_of_lt addr.isLt]

theorem messageData_inside (write : Bool) (data : List UInt8) {offset len : Nat}
    (inside : offset + len ≤ blockSize settings) : ∃ dataBlk, messageData settings write data offset len = some dataBlk := by
  cases write with
  | true => exact ⟨_, if_pos inside⟩
  | false => exact ⟨_, rfl⟩

/-! ### The first chunk -/

/-- The length of the first chunk. -/
def firstLen (settings : DMASettings) (pkt : Packet) : Nat :=
  if blockOffset settings pkt.addr + pkt.size ≤ blockSize settings then pkt.size
  else blockSize settings - blockOffset settings pkt.addr

/-- The request in the table after its first chunk was issued. -/
def firstRequest (settings : DMASettings) (pkt : Packet) : DMARequest :=
  ⟨pkt.addr, pkt.size, pkt.isWrite, 0, firstLen settings pkt, pkt.data, pkt⟩

variable {pkt : Packet}

theorem makeRequest_issued (room : s.outstandingCount < settings.maxOutstandingRequests)
    (free : s.requestTable (makeLineAddress settings.blockBits pkt.addr) = none) : ∃ dataBlk,
    s.makeRequest settings pkt = .ok (.issued, some ⟨pkt.addr, makeLineAddress settings.blockBits pkt.addr,
      if pkt.isWrite then .ST else .LD, firstLen settings pkt, dataBlk⟩,
      ⟨Function.update s.requestTable (makeLineAddress settings.blockBits pkt.addr) (some (firstRequest settings pkt)),
        s.outstandingCount + 1⟩) := by
  have inside : blockOffset settings pkt.addr + firstLen settings pkt ≤ blockSize settings := by
    have offset : blockOffset settings pkt.addr < blockSize settings := blockOffset_lt _
    unfold firstLen
    split <;> omega
  obtain ⟨dataBlk, data⟩ := messageData_inside pkt.isWrite pkt.data inside
  refine ⟨dataBlk, ?_⟩
  rw [makeRequest, if_neg (Nat.ne_of_lt room), if_neg (not_not.mpr room)]
  dsimp only
  rw [free]
  dsimp only
  rw [show (if blockOffset settings pkt.addr + pkt.size ≤ blockSize settings then pkt.size
    else blockSize settings - blockOffset settings pkt.addr) = firstLen settings pkt from rfl, data]
  rfl

variable {mem : Addr → UInt8}

/-- **A request in one line** is served by one chunk. -/
theorem served_of_fits (room : s.outstandingCount < settings.maxOutstandingRequests)
    (free : s.requestTable (makeLineAddress settings.blockBits pkt.addr) = none) (length : pkt.data.length = pkt.size)
    (fits : blockOffset settings pkt.addr + pkt.size ≤ blockSize settings) : s.Served settings mem pkt := by
  obtain ⟨dataBlk, issued⟩ := makeRequest_issued room free
  have len : firstLen settings pkt = pkt.size := if_pos fits
  have counted : ¬¬s.outstandingCount + 1 ≤ settings.maxOutstandingRequests := not_not.mpr room
  -- the callback completes the request with the bytes that it has then
  have ends : ∀ data, issueNext settings ⟨Function.update s.requestTable
      (makeLineAddress settings.blockBits pkt.addr) (some { firstRequest settings pkt with data := data }),
        s.outstandingCount + 1⟩ (makeLineAddress settings.blockBits pkt.addr)
      = .ok (.completes { pkt with data := data }, s) := fun data => by
    rw [issueNext]
    dsimp only
    rw [Function.update_self]
    dsimp only
    rw [if_neg counted, firstRequest, len, if_pos rfl, Function.update_idem, ← free, Function.update_eq_self]
    rfl
  have splits : Splits settings pkt.addr pkt.size [⟨pkt.addr, makeLineAddress settings.blockBits pkt.addr,
      if pkt.isWrite then .ST else .LD, firstLen settings pkt, dataBlk⟩] :=
    ⟨rfl, rfl, Nat.le_of_eq len, len.symm ▸ fits, len.symm ▸ Nat.sub_self pkt.size⟩
  refine ⟨_, _, 1, _, issued, ?_, splits⟩
  cases write : pkt.isWrite with
  | true =>
    have answered : answer settings ⟨Function.update s.requestTable (makeLineAddress settings.blockBits pkt.addr)
        (some (firstRequest settings pkt)), s.outstandingCount + 1⟩ mem ⟨pkt.addr,
          makeLineAddress settings.blockBits pkt.addr, .ST, firstLen settings pkt, dataBlk⟩ = .ok (.completes pkt, s) := by
      rw [answer]
      dsimp only
      rw [ackCallback]
      dsimp only
      rw [Function.update_self]
      exact ends pkt.data
    rw [serve, if_pos rfl, answered, servedPacket, if_pos write]
  | false =>
    have answered : answer settings ⟨Function.update s.requestTable (makeLineAddress settings.blockBits pkt.addr)
        (some (firstRequest settings pkt)), s.outstandingCount + 1⟩ mem ⟨pkt.addr,
          makeLineAddress settings.blockBits pkt.addr, .LD, firstLen settings pkt, dataBlk⟩
        = .ok (.completes (servedPacket mem pkt), s) := by
      have read : ¬(firstRequest settings pkt).write = true := by
        rw [firstRequest, write]
        exact Bool.false_ne_true
      have bytes : (lineOf mem (makeLineAddress settings.blockBits pkt.addr)).bytes (blockOffset settings pkt.addr) pkt.size
          = (List.range pkt.size).map fun i => mem (pkt.addr + BitVec.ofNat 64 i) := by
        refine List.map_congr_left fun i _ => congrArg mem ?_
        rw [BitVec.ofNat_add, ← BitVec.add_assoc, line_add_offset]
      have issuedLen : (firstRequest settings pkt).bytes_issued - (firstRequest settings pkt).bytes_completed = pkt.size := len
      have offset : (if (firstRequest settings pkt).bytes_completed = 0 then
          blockOffset settings (firstRequest settings pkt).start_paddr else 0) = blockOffset settings pkt.addr := if_pos rfl
      have filled : memcpy (firstRequest settings pkt).data (firstRequest settings pkt).bytes_completed ((List.range pkt.size).map fun i => mem (pkt.addr + BitVec.ofNat 64 i)) 0 pkt.size
          = some ((List.range pkt.size).map fun i => mem (pkt.addr + BitVec.ofNat 64 i)) := by
        have whole : ((List.range pkt.size).map fun i => mem (pkt.addr + BitVec.ofNat 64 i)).length = pkt.size := by
          rw [List.length_map, List.length_range]
        show memcpy pkt.data 0 _ 0 pkt.size = _
        rw [memcpy, if_pos (by rw [whole, length]; omega), List.take_zero, List.drop_zero, Nat.zero_add,
          List.drop_eq_nil_of_le (Nat.le_of_eq length), List.append_nil, List.nil_append,
          List.take_of_length_le (Nat.le_of_eq whole)]
      rw [answer]
      dsimp only
      rw [dataCallback]
      dsimp only
      rw [Function.update_self]
      dsimp only
      rw [if_neg read, issuedLen, offset, DataBlock.getData, if_pos fits, bytes]
      dsimp only
      rw [filled]
      dsimp only
      rw [Function.update_idem, servedPacket, write, if_neg Bool.false_ne_true]
      exact ends _
    rw [serve, if_neg Bool.false_ne_true, answered]

/-! ### Other lines -/

variable {effect : DMAEffect} {s' : DMASequencer}

theorem issueNext_other {address other : Addr} (ne : other ≠ address)
    (call : issueNext settings s address = .ok (effect, s')) : s'.requestTable other = s.requestTable other := by
  unfold issueNext at call
  split at call
  next => cases call
  next active found =>
    dsimp only at call
    split at call
    next => cases call
    next =>
      split at call
      next =>
        cases call
        exact Function.update_of_ne ne ..
      next =>
        split at call
        next => cases call
        next =>
          split at call
          next => cases call
          next =>
            cases call
            exact Function.update_of_ne ne ..

variable {msg : DMASequencerMsg}

theorem answer_other {other : Addr}
    (ne : other ≠ msg.lineAddress) (call : s.answer settings mem msg = .ok (effect, s')) :
    s'.requestTable other = s.requestTable other := by
  unfold answer at call
  split at call
  next =>
    unfold dataCallback at call
    split at call
    next => cases call
    next active found =>
      dsimp only at call
      split at call
      next => cases call
      next =>
        split at call
        next => cases call
        next =>
          split at call
          next => cases call
          next => exact (issueNext_other ne call).trans (Function.update_of_ne ne ..)
  next =>
    unfold ackCallback at call
    split at call
    next => cases call
    next => exact issueNext_other ne call

/-- **Chunks of other lines** leave the request of a line as it is. -/
theorem serve_keeps {turns : Nat} {msgs : List DMASequencerMsg}
    {final : DMASequencer} {line : Addr} (run : serve settings mem turns msg s = some (msgs, pkt, final))
    (others : ∀ other ∈ msgs, other.lineAddress ≠ line) : final.requestTable line = s.requestTable line := by
  induction turns generalizing msg msgs s with
  | zero => cases run
  | succ turns ih =>
    rw [serve] at run
    split at run
    next => cases run
    next pkt' s' call =>
      cases run
      exact answer_other (Ne.symm (others msg List.mem_cons_self)) call
    next next s' call =>
      obtain ⟨⟨msgs', pkt', final'⟩, rest, is⟩ := Option.map_eq_some_iff.mp run
      cases is
      rw [ih rest fun other mem => others other (List.mem_cons_of_mem _ mem)]
      exact answer_other (Ne.symm (others msg List.mem_cons_self)) call

theorem ne_line_of_behind {line start : Addr} {d : Nat} (behind : start.toNat = (line.toNat + d) % 2 ^ 64)
    (next : blockSize settings ≤ d) (short : d < 2 ^ 64) : makeLineAddress settings.blockBits start ≠ line := by
  intro same
  have lines : (makeLineAddress settings.blockBits start).toNat = _ := toNat_makeLineAddress start
  rw [same] at lines
  have whole := Nat.div_add_mod' start.toNat (blockSize settings)
  have offset := Nat.mod_lt start.toNat (show 0 < blockSize settings from Nat.two_pow_pos _)
  have inside := line.isLt
  rcases Nat.lt_or_ge (line.toNat + d) (2 ^ 64) with below | wraps
  · rw [Nat.mod_eq_of_lt below] at behind
    omega
  · have wrapped : (line.toNat + d) % 2 ^ 64 = line.toNat + d - 2 ^ 64 := by
      rw [Nat.mod_eq_sub_mod wraps, Nat.mod_eq_of_lt (by omega)]
    rw [wrapped] at behind
    omega

theorem splits_behind {line start : Addr} {len d : Nat} {msgs : List DMASequencerMsg}
    (splits : Splits settings start len msgs) (behind : start.toNat = (line.toNat + d) % 2 ^ 64)
    (next : blockSize settings ≤ d) (short : d + len < 2 ^ 64) : ∀ msg ∈ msgs, msg.lineAddress ≠ line := by
  induction msgs generalizing start len d with
  | nil => exact nofun
  | cons msg rest ih =>
    obtain ⟨-, is, le, -, later⟩ := splits
    intro other mem
    rcases List.mem_cons.mp mem with rfl | mem
    · exact is ▸ ne_line_of_behind behind next (by omega)
    · refine ih later (d := d + msg.len) ?_ (by omega) (by omega) other mem
      rw [BitVec.toNat_add, BitVec.toNat_ofNat, behind, Nat.mod_add_mod, Nat.add_mod_mod, Nat.add_assoc]

theorem issueNext_goesOn {active : DMARequest} {address : Addr}
    (found : s.requestTable address = some active) (more : active.len ≠ active.bytes_issued)
    (call : issueNext settings s address = .ok (effect, s')) :
    (∃ next, effect = .issues next) ∧ (s'.requestTable address).isSome := by
  rw [issueNext, found] at call
  dsimp only at call
  rw [if_neg more] at call
  split at call
  next => cases call
  next =>
    split at call
    next => cases call
    next =>
      split at call
      next => cases call
      next =>
        cases call
        refine ⟨⟨_, rfl⟩, ?_⟩
        dsimp only
        rw [Function.update_self]
        rfl

theorem answer_goesOn {active : DMARequest}
    (found : s.requestTable msg.lineAddress = some active) (more : active.len ≠ active.bytes_issued)
    (call : s.answer settings mem msg = .ok (effect, s')) :
    (∃ next, effect = .issues next) ∧ (s'.requestTable msg.lineAddress).isSome := by
  unfold answer at call
  split at call
  next =>
    rw [dataCallback, found] at call
    dsimp only at call
    split at call
    next => cases call
    next =>
      split at call
      next => cases call
      next =>
        split at call
        next => cases call
        next data copied =>
          have again : (⟨Function.update s.requestTable msg.lineAddress (some { active with data := data }),
              s.outstandingCount⟩ : DMASequencer).requestTable msg.lineAddress = some { active with data := data } :=
            Function.update_self ..
          exact issueNext_goesOn again more call
  next =>
    rw [ackCallback, found] at call
    exact issueNext_goesOn found more call

/-- **A request that leaves its first line** is not served by its chunks. -/
theorem fits_of_served (room : s.outstandingCount < settings.maxOutstandingRequests)
    (free : s.requestTable (makeLineAddress settings.blockBits pkt.addr) = none) (short : pkt.size < 2 ^ 31)
    (served : s.Served settings mem pkt) : blockOffset settings pkt.addr + pkt.size ≤ blockSize settings := by
  by_contra crosses
  obtain ⟨dataBlk, issued⟩ := makeRequest_issued room free
  obtain ⟨msg, issued', turns, msgs, call, run, splits⟩ := served
  rw [issued] at call
  cases call
  have len : firstLen settings pkt = blockSize settings - blockOffset settings pkt.addr := if_neg crosses
  have offset : blockOffset settings pkt.addr < blockSize settings := blockOffset_lt _
  have size : blockSize settings ≤ 2 ^ 31 := blockSize_le
  have more : (firstRequest settings pkt).len ≠ (firstRequest settings pkt).bytes_issued := by
    show pkt.size ≠ firstLen settings pkt
    omega
  have found : Function.update s.requestTable (makeLineAddress settings.blockBits pkt.addr)
      (some (firstRequest settings pkt)) (makeLineAddress settings.blockBits pkt.addr) = some (firstRequest settings pkt) :=
    Function.update_self ..
  cases turns with
  | zero => cases run
  | succ turns =>
    rw [serve] at run
    split at run
    next => cases run
    next pkt' s' first =>
      obtain ⟨⟨next, is⟩, -⟩ := answer_goesOn found more first
      cases is
    next next s' first =>
      obtain ⟨-, stays⟩ := answer_goesOn found more first
      obtain ⟨⟨msgs', pkt', final⟩, rest, is⟩ := Option.map_eq_some_iff.mp run
      cases is
      obtain ⟨-, -, le, -, later⟩ := splits
      -- what comes behind the first line is in another one
      have others := @splits_behind settings (makeLineAddress settings.blockBits pkt.addr) _ _ (blockSize settings) _ later
        (by
          have start := congrArg BitVec.toNat (@line_add_offset settings pkt.addr)
          rw [BitVec.toNat_add, BitVec.toNat_ofNat, Nat.add_mod_mod] at start
          rw [BitVec.toNat_add, BitVec.toNat_ofNat, Nat.add_mod_mod, ← start, Nat.mod_add_mod, len, Nat.add_assoc,
            Nat.add_sub_cancel' (Nat.le_of_lt offset)])
        (Nat.le_refl _) (by omega)
      have kept := serve_keeps rest others
      rw [free] at kept
      rw [← kept] at stays
      cases stays

/-- **Serving DMA requests**: a request for which there is room, whose first line has none, is served by its chunks if
and only if it is inside of that line. -/
theorem served_iff (mem : Addr → UInt8) {pkt : Packet} (length : pkt.data.length = pkt.size) (short : pkt.size < 2 ^ 31)
    (room : s.outstandingCount < settings.maxOutstandingRequests)
    (free : s.requestTable (makeLineAddress settings.blockBits pkt.addr) = none) :
    s.Served settings mem pkt ↔ blockOffset settings pkt.addr + pkt.size ≤ blockSize settings :=
  ⟨fits_of_served room free short, served_of_fits room free length⟩

/-- Lines of 64 bytes. -/
def lines64 : DMASettings := ⟨6, 4, by decide⟩

/-- A request for the bytes around the end of the first line. -/
def twoLines : Packet := .ofRequest 1 (.make 60 8 0 0 0) .readReq [0, 0, 0, 0, 0, 0, 0, 0]

theorem served_iff_word : Served lines64 ⟨fun _ => none, 0⟩ (fun addr => UInt8.ofBitVec (addr.setWidth 8))
      (.ofRequest 1 (.make 60 4 0 0 0) .readReq [0, 0, 0, 0]) ↔ 60 + 4 ≤ 64 :=
  served_iff _ rfl (by decide) (by decide) rfl

/-- The answer of the second chunk finds no request. -/
theorem twoLines_fails : ∃ first issued second next, makeRequest lines64 ⟨fun _ => none, 0⟩ twoLines
      = .ok (.issued, some first, issued) ∧
    issued.answer lines64 (fun _ => 0) first = .ok (.issues second, next) ∧ second.lineAddress = 64 ∧
    next.answer lines64 (fun _ => 0) second = .error .noRequest :=
  ⟨_, _, _, _, rfl, rfl, rfl, rfl⟩

end DMASequencer

end Emas.Ruby

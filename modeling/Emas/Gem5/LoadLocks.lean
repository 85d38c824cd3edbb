/-
**Load-locked and store-conditional on one block.**

Runs of `trackLoadLocked`, `checkWrite` and `invalidate` on one block, by any contexts, with a history of what was called
and which writes proceeded. Ranges do not wrap past `2 ^ 64`.
-/

import Emas.Gem5.CacheBlk
import Emas.Lib.PartialRun

namespace Emas.Gem5

/-! ### Ranges of requests -/

namespace Request

variable {req other : Request}

/-- The address behind the last byte. -/
def behind (req : Request) : Nat := req.paddr.toNat + req.size

/-- The range does not wrap, and has an address in front of its end. -/
def Fits (req : Request) : Prop := 0 < req.behind ∧ req.behind ≤ 2 ^ 64

instance : Decidable (Fits req) := inferInstanceAs (Decidable (_ ∧ _))

/-- The range of the other request is part of that of the first. -/
def Covers (req other : Request) : Prop := req.paddr.toNat ≤ other.paddr.toNat ∧ other.behind ≤ req.behind

/-- The ranges overlap. -/
def Overlaps (req other : Request) : Prop := req.paddr.toNat < other.behind ∧ other.paddr.toNat < req.behind

theorem toNat_highAddr (fits : req.Fits) : req.highAddr.toNat = req.behind - 1 := by
  obtain ⟨positive, bounded⟩ := fits
  simp only [behind] at positive bounded ⊢
  have small := req.paddr.isLt
  have one : (1 : BitVec 64).toNat = 1 := rfl
  simp only [highAddr, BitVec.toNat_sub, BitVec.toNat_add, BitVec.toNat_ofNat, one]
  omega

/-- **The comparison of a lowest with a highest address.** -/
theorem lowAddr_le_highAddr_iff (fits : other.Fits) :
    req.lowAddr ≤ other.highAddr ↔ req.paddr.toNat < other.behind := by
  rw [BitVec.le_def, toNat_highAddr fits, lowAddr]
  have positive := fits.1
  omega

theorem Overlaps.widen {outer : Request} (overlaps : req.Overlaps other) (covers : outer.Covers other) :
    req.Overlaps outer :=
  ⟨Nat.lt_of_lt_of_le overlaps.1 covers.2, Nat.lt_of_le_of_lt covers.1 overlaps.2⟩

end Request

namespace Lock

variable {req other : Request}

theorem ofRequest_intersects_iff (fits : req.Fits) (fits' : other.Fits) :
    (ofRequest req).intersects other ↔ other.Overlaps req := by
  rw [intersects, Bool.and_eq_true, decide_eq_true_iff, decide_eq_true_iff]
  exact and_congr (Request.lowAddr_le_highAddr_iff fits) (Request.lowAddr_le_highAddr_iff fits')

theorem ofRequest_matchesReq_iff (fits : req.Fits) (fits' : other.Fits) :
    (ofRequest req).matchesReq other ↔ req.contextId = other.contextId ∧ req.Covers other := by
  rw [matchesReq, Bool.and_eq_true, Bool.and_eq_true, decide_eq_true_iff, decide_eq_true_iff, decide_eq_true_iff,
    and_assoc]
  refine and_congr Iff.rfl (and_congr (by rw [BitVec.le_def]; rfl) ?_)
  show other.highAddr ≤ req.highAddr ↔ _
  rw [BitVec.le_def, Request.toNat_highAddr fits, Request.toNat_highAddr fits']
  have positive := fits.1
  have positive' := fits'.1
  omega

end Lock

/-- No address lies in both ranges. -/
def Lock.Disjoint (lock other : Lock) : Prop := ¬ (lock.lowAddr ≤ other.highAddr ∧ other.lowAddr ≤ lock.highAddr)

/-! ### Runs -/

/-- A call on the block. -/
inductive LockCall where
  | trackLoadLocked (pkt : Packet)
  | checkWrite (pkt : Packet)
  | invalidate

/-- What has happened to the block. -/
inductive LockEvent where
  | loadLocked (req : Request)
  | write (pkt : Packet) (proceeds : Bool)
  | invalidated

/-- A block and its history. -/
structure LockRun where
  blk : CacheBlk
  log : List LockEvent

namespace LockCall

/-- The range of the call does not wrap. -/
def Fits : LockCall → Prop
  | trackLoadLocked pkt | checkWrite pkt => pkt.req.Fits
  | invalidate => True

instance : ∀ call : LockCall, Decidable call.Fits
  | trackLoadLocked pkt | checkWrite pkt => inferInstanceAs (Decidable pkt.req.Fits)
  | invalidate => isTrue trivial

end LockCall

namespace LockEvent

/-- A store-conditional that succeeded. -/
def Conditional (event : LockEvent) (pkt : Packet) : Prop := event = write pkt true ∧ pkt.isLLSC

/-- A write of another context that meets the range and proceeded. -/
def ForeignWrite (event : LockEvent) (contextId : Int) (range : Request) : Prop :=
  ∃ pkt, event = write pkt true ∧ pkt.req.contextId ≠ contextId ∧ pkt.req.Overlaps range

end LockEvent

namespace LockRun

/-- A new block. -/
def create : LockRun := ⟨.create, []⟩

/-- A call on the block, noted. -/
def act (run : LockRun) : LockCall → Option LockRun
  | .trackLoadLocked pkt => (run.blk.trackLoadLocked pkt).map fun blk => ⟨blk, run.log ++ [.loadLocked pkt.req]⟩
  | .checkWrite pkt =>
    (run.blk.checkWrite pkt).map fun (proceeds, blk) => ⟨blk, run.log ++ [.write pkt proceeds]⟩
  | .invalidate => some ⟨run.blk.invalidate, run.log ++ [.invalidated]⟩

/-- Nothing has broken a lock on the range since a moment of the history. -/
def Unbroken (log : List LockEvent) (since till : Nat) (contextId : Int) (range : Request) : Prop :=
  ∀ m event, since < m → m < till → log[m]? = some event → event ≠ .invalidated ∧ ¬ event.ForeignWrite contextId range

/-- What a store-conditional relies on: the load-locked at `source` is by the same context and covers its range, and
nothing has broken it since. -/
structure Justified (log : List LockEvent) (n : Nat) (pkt : Packet) (source : Nat) : Prop where
  earlier : source < n
  covered : ∃ loaded, log[source]? = some (.loadLocked loaded) ∧ loaded.contextId = pkt.req.contextId ∧
    loaded.Covers pkt.req
  unbroken : Unbroken log source n pkt.req.contextId pkt.req

/-- The successful store-conditionals of a history are matched one to one with what they rely on. -/
structure Matched (log : List LockEvent) (source : Nat → Nat) : Prop where
  justified : ∀ n event pkt, log[n]? = some event → event.Conditional pkt → Justified log n pkt (source n)
  apart : ∀ n n' event event' pkt pkt', log[n]? = some event → event.Conditional pkt → log[n']? = some event' →
    event'.Conditional pkt' → source n = source n' → n = n'

/-! ### Histories that grow -/

variable {pkt : Packet}

variable {origin : Nat}

section Growing

variable {log : List LockEvent} {new event : LockEvent} {source : Nat → Nat} {n : Nat}

theorem at_snoc (found : (log ++ [new])[n]? = some event) :
    log[n]? = some event ∧ n < log.length ∨ n = log.length ∧ event = new := by
  rcases Nat.lt_trichotomy n log.length with before | rfl | after
  · rw [List.getElem?_append_left before] at found
    exact .inl ⟨found, before⟩
  · rw [List.getElem?_concat_length] at found
    exact .inr ⟨rfl, (Option.some.inj found).symm⟩
  · rw [List.getElem?_eq_none (by simp; omega)] at found
    cases found

theorem at_old (found : log[n]? = some event) : (log ++ [new])[n]? = some event := by
  obtain ⟨before, -⟩ := List.getElem?_eq_some_iff.mp found
  rw [List.getElem?_append_left before, found]

theorem Unbroken.snoc {since till : Nat} {contextId : Int} {range : Request} (short : till ≤ log.length)
    (unbroken : Unbroken log since till contextId range) : Unbroken (log ++ [new]) since till contextId range := by
  intro m event after before found
  rcases at_snoc found with ⟨old, -⟩ | ⟨rfl, -⟩
  · exact unbroken m event after before old
  · omega

theorem Unbroken.extend {since : Nat} {contextId : Int} {range : Request}
    (unbroken : Unbroken log since log.length contextId range) (kept : new ≠ .invalidated)
    (harmless : ¬ new.ForeignWrite contextId range) :
    Unbroken (log ++ [new]) since (log ++ [new]).length contextId range := by
  intro m event after before found
  rcases at_snoc found with ⟨old, inside⟩ | ⟨-, rfl⟩
  · exact unbroken m event after inside old
  · exact ⟨kept, harmless⟩

theorem Justified.snoc (inside : n < log.length)
    (justified : Justified log n pkt origin) : Justified (log ++ [new]) n pkt origin := by
  obtain ⟨loaded, found, same, covers⟩ := justified.covered
  exact ⟨justified.earlier, ⟨loaded, at_old found, same, covers⟩, justified.unbroken.snoc (Nat.le_of_lt inside)⟩

theorem Matched.snoc (matched : Matched log source) (other : ∀ pkt, ¬ new.Conditional pkt) :
    Matched (log ++ [new]) source := by
  have old : ∀ {n event pkt}, (log ++ [new])[n]? = some event → event.Conditional pkt →
      log[n]? = some event ∧ n < log.length := by
    intro n event pkt found conditional
    rcases at_snoc found with here | ⟨-, rfl⟩
    · exact here
    · exact absurd conditional (other pkt)
  refine ⟨fun n event pkt found conditional => ?_, fun n n' event event' pkt pkt' found conditional found' conditional' =>
    matched.apart n n' event event' pkt pkt' (old found conditional).1 conditional (old found' conditional').1 conditional'⟩
  obtain ⟨before, inside⟩ := old found conditional
  exact (matched.justified n event pkt before conditional).snoc inside

theorem Matched.snoc_conditional (matched : Matched log source)
    (justified : Justified (log ++ [.write pkt true]) log.length pkt origin)
    (unused : ∀ n event pkt, log[n]? = some event → event.Conditional pkt → source n ≠ origin) :
    Matched (log ++ [.write pkt true]) (Function.update source log.length origin) := by
  have updated : ∀ {n}, n < log.length → Function.update source log.length origin n = source n :=
    fun before => Function.update_of_ne (Nat.ne_of_lt before) _ _
  refine ⟨fun n event pkt' found conditional => ?_, fun n n' event event' pkt₁ pkt₂ found conditional found' conditional'
    same => ?_⟩
  · rcases at_snoc found with ⟨old, inside⟩ | ⟨rfl, rfl⟩
    · rw [updated inside]
      exact (matched.justified n event pkt' old conditional).snoc inside
    · obtain rfl : pkt = pkt' := (LockEvent.write.inj conditional.1).1
      rw [Function.update_self]
      exact justified
  · rcases at_snoc found with ⟨old, inside⟩ | ⟨rfl, rfl⟩ <;> rcases at_snoc found' with ⟨old', inside'⟩ | ⟨rfl, rfl⟩
    · rw [updated inside, updated inside'] at same
      exact matched.apart n n' event event' pkt₁ pkt₂ old conditional old' conditional' same
    · rw [updated inside, Function.update_self] at same
      exact absurd same (unused n event pkt₁ old conditional)
    · rw [updated inside', Function.update_self] at same
      exact absurd same.symm (unused n' event' pkt₂ old' conditional')
    · rfl

end Growing

/-! ### The invariant -/

/-- The lock stands for the load-locked at `origin`, which nothing has broken since. -/
def Standing (log : List LockEvent) (lock : Lock) (origin : Nat) : Prop :=
  ∃ req, log[origin]? = some (.loadLocked req) ∧ req.Fits ∧ lock = .ofRequest req ∧
    Unbroken log origin log.length req.contextId req

/-- The locks of the block with the load-lockeds they come from, and what the successful store-conditionals relied
on. -/
structure Inv (run : LockRun) (held : List (Lock × Nat)) (source : Nat → Nat) : Prop where
  locks : run.blk.lockList = held.map Prod.fst
  standing : ∀ entry ∈ held, Standing run.log entry.1 entry.2
  origins : (held.map Prod.snd).Nodup
  matched : Matched run.log source
  unused : ∀ n event pkt, run.log[n]? = some event → event.Conditional pkt → source n ∉ held.map Prod.snd
  disjoint : run.blk.lockList.Pairwise Lock.Disjoint

variable {log : List LockEvent}

theorem Standing.snoc {new : LockEvent} {lock : Lock} (standing : Standing log lock origin) (kept : new ≠ .invalidated)
    (harmless : ∀ req, req.Fits → lock = .ofRequest req → ¬ new.ForeignWrite req.contextId req) :
    Standing (log ++ [new]) lock origin := by
  obtain ⟨req, found, fits, same, unbroken⟩ := standing
  exact ⟨req, at_old found, fits, same, unbroken.extend kept (harmless req fits same)⟩

theorem Standing.origin_lt {lock : Lock} (standing : Standing log lock origin) : origin < log.length := by
  obtain ⟨req, found, -⟩ := standing
  exact (List.getElem?_eq_some_iff.mp found).1

variable {run : LockRun} {held : List (Lock × Nat)} {source : Nat → Nat}

theorem inv_create : create.Inv [] id where
  locks := rfl
  standing := by simp
  origins := List.nodup_nil
  matched := ⟨fun _ _ _ found => (by cases found), fun _ _ _ _ _ _ found => (by cases found)⟩
  unused := fun _ _ _ found => (by cases found)
  disjoint := List.Pairwise.nil

/-- **A load-locked** takes the place of the locks that it overlaps. -/
theorem Inv.loadLocked (inv : run.Inv held source) (fits : pkt.req.Fits) :
    Inv ⟨{ run.blk with lockList := .ofRequest pkt.req :: run.blk.lockList.filter fun lock =>
        !lock.intersects pkt.req }, run.log ++ [.loadLocked pkt.req]⟩
      ((.ofRequest pkt.req, run.log.length) :: held.filter fun entry => !entry.1.intersects pkt.req) source := by
  have kept : ∀ entry ∈ held.filter (fun entry => !entry.1.intersects pkt.req), entry ∈ held :=
    fun entry member => (List.mem_filter.mp member).1
  refine ⟨?_, fun entry member => ?_, ?_, inv.matched.snoc (by rintro pkt ⟨same, -⟩; cases same), ?_, ?_⟩
  · rw [List.map_cons, inv.locks, List.filter_map]
    rfl
  · rcases List.mem_cons.mp member with rfl | old
    · refine ⟨pkt.req, List.getElem?_concat_length, fits, rfl, fun m event after before => ?_⟩
      rw [List.length_append, List.length_singleton] at before
      omega
    · refine (inv.standing entry (kept entry old)).snoc (by rintro ⟨⟩) ?_
      rintro req - - ⟨pkt, same, -⟩
      cases same
  · rw [List.map_cons, List.nodup_cons]
    refine ⟨fun again => ?_, inv.origins.sublist (List.filter_sublist.map _)⟩
    obtain ⟨entry, member, same⟩ := List.mem_map.mp again
    exact absurd (inv.standing entry (kept entry member)).origin_lt (by omega)
  · intro n event pkt' found conditional again
    rcases at_snoc found with ⟨old, inside⟩ | ⟨-, rfl⟩
    · rcases List.mem_cons.mp again with same | member
      · have := (inv.matched.justified n event pkt' old conditional).earlier
        simp only at same
        omega
      · exact inv.unused n event pkt' old conditional ((List.filter_sublist.map _).subset member)
    · cases conditional.1
  · refine List.pairwise_cons.mpr ⟨fun lock member => ?_, inv.disjoint.sublist List.filter_sublist⟩
    have apart := (List.mem_filter.mp member).2
    simpa [Lock.Disjoint, Lock.intersects, Lock.ofRequest, imp_iff_not_or, or_comm] using apart

/-- Whether a request clears a lock: the range of another context meets its own. -/
def Clears (req : Request) (lock : Lock) : Bool := lock.intersects req && lock.contextId != req.contextId

theorem Standing.write {lock : Lock} (standing : Standing log lock origin)
    (fits : pkt.req.Fits) (left : ¬ Clears pkt.req lock) (proceeds : Bool) :
    Standing (log ++ [.write pkt proceeds]) lock origin := by
  refine standing.snoc (by rintro ⟨⟩) ?_
  rintro req fits' rfl ⟨pkt', same, foreign, overlaps⟩
  obtain ⟨rfl, -⟩ := LockEvent.write.inj same
  refine left ?_
  rw [Clears, (Lock.ofRequest_intersects_iff fits' fits).mpr overlaps, Bool.true_and]
  exact bne_iff_ne.mpr (Ne.symm foreign)

/-- **A write that takes no lock** clears the locks of other contexts that it overlaps. -/
theorem Inv.plainWrite (inv : run.Inv held source) (fits : pkt.req.Fits) {proceeds : Bool}
    (plain : ∀ pkt', ¬ (LockEvent.write pkt proceeds).Conditional pkt') :
    Inv ⟨run.blk.clearLoadLocks pkt.req, run.log ++ [.write pkt proceeds]⟩
      (held.filter fun entry => !Clears pkt.req entry.1) source where
  locks := by
    show run.blk.lockList.filter _ = _
    rw [inv.locks, List.filter_map]
    rfl
  standing := fun entry member => by
    obtain ⟨old, left⟩ := List.mem_filter.mp member
    exact (inv.standing entry old).write fits (by simpa using left) proceeds
  origins := inv.origins.sublist (List.filter_sublist.map _)
  matched := inv.matched.snoc plain
  unused := fun n event pkt' found conditional again => by
    rcases at_snoc found with ⟨old, -⟩ | ⟨-, rfl⟩
    · exact inv.unused n event pkt' old conditional ((List.filter_sublist.map _).subset again)
    · exact plain pkt' conditional
  disjoint := inv.disjoint.sublist List.filter_sublist

/-- **A store-conditional that matches a lock** takes it out of the list. -/
theorem Inv.storeConditional (inv : run.Inv held source) (fits : pkt.req.Fits)
    {before after : List (Lock × Nat)} {entry : Lock × Nat} (split : held = before ++ entry :: after)
    (matched : entry.1.matchesReq pkt.req) :
    Inv ⟨{ run.blk with lockList := (before ++ after).map Prod.fst }.clearLoadLocks pkt.req,
        run.log ++ [.write pkt true]⟩
      ((before ++ after).filter fun entry => !Clears pkt.req entry.1)
      (Function.update source run.log.length entry.2) := by
  have here : entry ∈ held := split ▸ List.mem_append_right _ (List.mem_cons_self ..)
  have part : (before ++ after).Sublist held :=
    split ▸ (List.Sublist.refl before).append (List.sublist_cons_self entry after)
  have fresh : entry.2 ∉ (before ++ after).map Prod.snd := by
    have nodup := inv.origins
    rw [split, List.map_append, List.map_cons, List.nodup_middle, List.nodup_cons, ← List.map_append] at nodup
    exact nodup.1
  have left : ∀ other ∈ (before ++ after).filter (fun entry => !Clears pkt.req entry.1),
      other ∈ held ∧ ¬ Clears pkt.req other.1 := fun other member =>
    ⟨part.subset (List.mem_filter.mp member).1, by simpa using (List.mem_filter.mp member).2⟩
  have justified : Justified (run.log ++ [.write pkt true]) run.log.length pkt entry.2 := by
    obtain ⟨req, found, fits', same, unbroken⟩ := inv.standing entry here
    rw [same, Lock.ofRequest_matchesReq_iff fits' fits] at matched
    obtain ⟨context, covers⟩ := matched
    refine ⟨(List.getElem?_eq_some_iff.mp found).1, ⟨req, at_old found, context, covers⟩,
      Unbroken.snoc (Nat.le_refl _) fun m event since till at' => ?_⟩
    obtain ⟨kept, harmless⟩ := unbroken m event since till at'
    refine ⟨kept, fun ⟨pkt', same', foreign, overlaps⟩ => harmless ⟨pkt', same', ?_, overlaps.widen covers⟩⟩
    rwa [context]
  refine ⟨?_, fun other member => ?_, ?_, ?_, ?_, ?_⟩
  · show ((before ++ after).map Prod.fst).filter _ = _
    rw [List.filter_map]
    rfl
  · obtain ⟨old, kept⟩ := left other member
    exact (inv.standing other old).write fits kept true
  · exact (inv.origins.sublist (part.map _)).sublist (List.filter_sublist.map _)
  · refine inv.matched.snoc_conditional justified fun n event pkt' found conditional same => ?_
    exact inv.unused n event pkt' found conditional (same ▸ List.mem_map_of_mem here)
  · intro n event pkt' found conditional again
    have again' := (List.filter_sublist.map _).subset again
    rcases at_snoc found with ⟨old, inside⟩ | ⟨rfl, -⟩
    · rw [Function.update_of_ne (Nat.ne_of_lt inside)] at again'
      exact inv.unused n event pkt' old conditional ((part.map _).subset again')
    · rw [Function.update_self] at again'
      exact fresh again'
  · have disjoint := inv.disjoint
    rw [inv.locks] at disjoint
    exact (disjoint.sublist (part.map _)).sublist List.filter_sublist

/-- **The block is invalidated**, and no lock is left. -/
theorem Inv.invalidate (inv : run.Inv held source) : Inv ⟨run.blk.invalidate, run.log ++ [.invalidated]⟩ [] source where
  locks := rfl
  standing := by simp
  origins := List.nodup_nil
  matched := inv.matched.snoc (by rintro pkt ⟨same, -⟩; cases same)
  unused := by simp
  disjoint := List.Pairwise.nil

theorem checkWrite_plain {blk : CacheBlk} (write : pkt.isWrite) (plain : pkt.isLLSC = false) :
    blk.checkWrite pkt = some (true, blk.clearLoadLocks pkt.req) := by
  rw [CacheBlk.checkWrite, if_pos write, plain]
  rcases hlocks : blk.lockList with _ | ⟨lock, rest⟩
  · simp [CacheBlk.clearLoadLocks, hlocks]
    cases blk
    simp_all
  · simp

theorem checkWrite_conditional {blk : CacheBlk} (write : pkt.isWrite) (conditional : pkt.isLLSC) :
    blk.checkWrite pkt = some (blk.lockList.any (·.matchesReq pkt.req),
      { blk with lockList := blk.lockList.eraseP (·.matchesReq pkt.req) }.clearLoadLocks pkt.req) := by
  rw [CacheBlk.checkWrite, if_pos write, conditional]
  rfl

/-- **One call.** -/
theorem Inv.act (inv : run.Inv held source) {call : LockCall} (fits : call.Fits) {next : LockRun}
    (done : run.act call = some next) : ∃ held source, next.Inv held source := by
  cases call with
  | trackLoadLocked pkt =>
    obtain ⟨blk, tracked, rfl⟩ := Option.map_eq_some_iff.mp done
    rw [CacheBlk.trackLoadLocked, Option.ite_none_right_eq_some] at tracked
    obtain rfl := Option.some.inj tracked.2
    exact ⟨_, _, inv.loadLocked fits⟩
  | invalidate =>
    obtain rfl := Option.some.inj done
    exact ⟨_, _, inv.invalidate⟩
  | checkWrite pkt =>
    obtain ⟨⟨proceeds, blk⟩, checked, rfl⟩ := Option.map_eq_some_iff.mp done
    have write : pkt.isWrite := by
      by_contra not
      rw [CacheBlk.checkWrite, if_neg not] at checked
      cases checked
    cases conditional : pkt.isLLSC with
    | false =>
      rw [checkWrite_plain write conditional] at checked
      cases checked
      exact ⟨_, _, inv.plainWrite fits fun pkt' ⟨same, llsc⟩ => by
        obtain ⟨rfl, -⟩ := LockEvent.write.inj same
        rw [conditional] at llsc
        cases llsc⟩
    | true =>
      rw [checkWrite_conditional write conditional] at checked
      obtain ⟨rfl, rfl⟩ := Prod.mk.inj (Option.some.inj checked)
      by_cases found : ∃ entry ∈ held, entry.1.matchesReq pkt.req
      · obtain ⟨entry, member, matched⟩ := found
        obtain ⟨taken, before, after, -, matched', split, erased⟩ :=
          List.exists_of_eraseP (p := fun entry : Lock × Nat => entry.1.matchesReq pkt.req) member matched
        have success : run.blk.lockList.any (·.matchesReq pkt.req) = true :=
          List.any_eq_true.mpr ⟨entry.1, inv.locks ▸ List.mem_map_of_mem member, matched⟩
        have left : run.blk.lockList.eraseP (·.matchesReq pkt.req) = (before ++ after).map Prod.fst := by
          rw [inv.locks, List.eraseP_map, ← erased]
          rfl
        rw [success, left]
        exact ⟨_, _, inv.storeConditional fits split matched'⟩
      · have none : ∀ lock ∈ run.blk.lockList, ¬ lock.matchesReq pkt.req := by
          rw [inv.locks]
          rintro lock member matched
          obtain ⟨entry, inside, rfl⟩ := List.mem_map.mp member
          exact found ⟨entry, inside, matched⟩
        rw [List.any_eq_false.mpr none, List.eraseP_of_forall_not none]
        exact ⟨_, _, inv.plainWrite fits fun pkt' ⟨same, _⟩ => by cases same⟩

/-- **Load-locked and store-conditional are atomic.** In every run, the successful store-conditionals are matched one to
one with load-lockeds of the same context that cover them, since which the block was not invalidated and no write of
another context into the range proceeded; and the locks of the block never overlap. -/
theorem store_conditional_atomic {calls : List LockCall} (fits : ∀ call ∈ calls, call.Fits) {run : LockRun}
    (ran : tryActions act create calls = some run) :
    (∃ source, Matched run.log source) ∧ run.blk.lockList.Pairwise Lock.Disjoint := by
  have all : MeetAll act (fun _ call => call.Fits) create calls := MeetAll.of_forall (fun call member _ => fits call member) _
  obtain ⟨held, source, inv⟩ := all.invariant (fun run => ∃ held source, run.Inv held source)
    (fun _ _ _ fits done ⟨_, _, inv⟩ => inv.act fits done) ran ⟨[], id, inv_create⟩
  exact ⟨⟨source, inv.matched⟩, inv.disjoint⟩

/-- Two contexts lock the same word; the first stores to it, and the second finds its lock gone. -/
def contended : List LockCall :=
  [.trackLoadLocked (.ofRequest 0 (.make 0x100 8 Request.llsc 0 0) .loadLockedReq []),
   .trackLoadLocked (.ofRequest 1 (.make 0x140 8 Request.llsc 0 1) .loadLockedReq []),
   .checkWrite (.ofRequest 2 (.make 0x100 4 Request.llsc 0 0) .storeCondReq [1, 2, 3, 4]),
   .checkWrite (.ofRequest 3 (.make 0x144 1 0 0 0) .writeReq [5]),
   .checkWrite (.ofRequest 4 (.make 0x140 8 Request.llsc 0 1) .storeCondReq [0, 0, 0, 0, 0, 0, 0, 0])]

theorem store_conditional_contended : ∃ run, tryActions act create contended = some run ∧
    (∃ source, Matched run.log source) ∧ run.blk.lockList.Pairwise Lock.Disjoint := by
  have returns : (tryActions act create contended).isSome := by decide
  have ran := (Option.some_get returns).symm
  exact ⟨_, ran, store_conditional_atomic (by decide) ran⟩

end LockRun

end Emas.Gem5

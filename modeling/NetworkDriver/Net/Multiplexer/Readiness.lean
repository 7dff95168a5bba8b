import NetworkDriver.Library.Run
import NetworkDriver.Net.Multiplexer.Epoll.Model
import NetworkDriver.Net.Multiplexer.Kqueue.Events
import Mathlib.Data.Set.Insert

/-! # What a multiplexer is for

A multiplexer knows which managers are registered and what each of them waits for. `Interest` says so
without a table, an iterator or a kernel: a set of managers and a function. `shutdown` is one change of
both here; in the backends it is a loop that erases elements of the unordered map that it walks.

The two backends with readiness events keep the same `Interest`, given that `epoll_ctl` succeeds, on all
calls that the multiplexer and its managers make; each hashes its managers as it likes.

* `Interest.shutdown`: all at once.
* `loop_refines`: the loop of `shutdown`, in any order of the map.
* `epollCall_refines`, `kqueueCall_refines`: the two backends.
* `backends_agree`: both together, over all runs. -/

namespace NetworkDriver.Net.Multiplexer.Readiness

open NetworkDriver.Library.Keyed NetworkDriver.Library.Run
open NetworkDriver.Net.Types NetworkDriver.Net.Multiplexer.Base

/-! ### The abstract multiplexer -/

/-- The managers that are registered, what every manager waits for, and whether there has been a
`shutdown`. -/
structure Interest where
  registered : Set Manager
  waits : Manager → Operation
  shuttingDown : Bool

/-- What waits for reading and accepting only waits for nothing when that is taken away. -/
def cut (mask : Operation) : Operation := mask &&& ~~~Operation.readAccept

namespace Interest

def add (mgr : Manager) (initial : Operation) (i : Interest) : Interest :=
  { i with registered := insert mgr i.registered, waits := Function.update i.waits mgr initial }

def enable (mgr : Manager) (op : Operation) (i : Interest) : Interest :=
  { i with waits := Function.update i.waits mgr (i.waits mgr ||| op) }

/-- A manager that loses its last operation is removed, if that is asked for. -/
def disable (mgr : Manager) (op : Operation) (remove : Bool) (i : Interest) : Interest where
  registered := {m | m ∈ i.registered ∧ ¬(m = mgr ∧ remove = true ∧
    i.waits mgr &&& op ≠ Operation.none ∧ i.waits mgr &&& ~~~op = Operation.none)}
  waits := Function.update i.waits mgr (i.waits mgr &&& ~~~op)
  shuttingDown := i.shuttingDown

def del (handle : SocketId) (i : Interest) : Interest :=
  { i with registered := {m | m ∈ i.registered ∧ m.handle ≠ handle} }

open Classical in
/-- Everyone in `among` but the pipe reader stops reading and accepting, and is removed if nothing is
left to wait for. -/
noncomputable def close (pipeReader : SocketId) (among : Set Manager) (i : Interest) : Interest where
  registered := {m | m ∈ i.registered ∧
    ¬(m ∈ among ∧ m.handle ≠ pipeReader ∧ cut (i.waits m) = Operation.none)}
  waits m := if m ∈ among ∧ m.handle ≠ pipeReader then cut (i.waits m) else i.waits m
  shuttingDown := i.shuttingDown

/-- `shutdown`. -/
noncomputable def shutdown (pipeReader : SocketId) (i : Interest) : Interest :=
  { i.close pipeReader i.registered with shuttingDown := true }

theorem ext {i j : Interest} (hregistered : ∀ m, m ∈ i.registered ↔ m ∈ j.registered)
    (hwaits : ∀ m, i.waits m = j.waits m) (hflag : i.shuttingDown = j.shuttingDown) : i = j := by
  obtain ⟨registered, waits, flag⟩ := i
  obtain ⟨registered', waits', flag'⟩ := j
  obtain rfl : registered = registered' := Set.ext hregistered
  obtain rfl : waits = waits' := funext hwaits
  obtain rfl : flag = flag' := hflag
  rfl

section Close

variable {pipeReader : SocketId} {among : Set Manager} {i : Interest} {m : Manager}

theorem mem_close : m ∈ (i.close pipeReader among).registered ↔ m ∈ i.registered ∧
    ¬(m ∈ among ∧ m.handle ≠ pipeReader ∧ cut (i.waits m) = Operation.none) := Iff.rfl

theorem close_waits (hm : m ∈ among) (hreader : m.handle ≠ pipeReader) :
    (i.close pipeReader among).waits m = cut (i.waits m) := if_pos ⟨hm, hreader⟩

theorem close_waits_of_notMem (hm : m ∉ among) : (i.close pipeReader among).waits m = i.waits m :=
  if_neg fun h => hm h.1

theorem close_waits_pipeReader (hreader : m.handle = pipeReader) :
    (i.close pipeReader among).waits m = i.waits m := if_neg fun h => h.2 hreader

/-- **One after the other is all at once**, for managers that are not the same. -/
theorem close_insert {mgr : Manager} (h : mgr ∉ among) :
    (i.close pipeReader {mgr}).close pipeReader among = i.close pipeReader (insert mgr among) := by
  have hwaits : ∀ m, m ≠ mgr → (i.close pipeReader {mgr}).waits m = i.waits m :=
    fun m hm => close_waits_of_notMem hm
  refine ext (fun m => ?_) (fun m => ?_) rfl
  · rw [mem_close, mem_close, mem_close]
    by_cases heq : m = mgr
    · subst heq
      simp [h]
    · rw [hwaits m heq]
      simp [heq]
  · by_cases hreader : m.handle = pipeReader
    · rw [close_waits_pipeReader hreader, close_waits_pipeReader hreader, close_waits_pipeReader hreader]
    · by_cases heq : m = mgr
      · subst heq
        rw [close_waits_of_notMem h, close_waits (Set.mem_singleton _) hreader,
          close_waits (Set.mem_insert _ _) hreader]
      · by_cases hm : m ∈ among
        · rw [close_waits hm hreader, hwaits m heq, close_waits (Set.mem_insert_of_mem _ hm) hreader]
        · rw [close_waits_of_notMem hm, hwaits m heq,
            close_waits_of_notMem fun hmem => hm (hmem.resolve_left heq)]

/-- Nobody is closed. -/
theorem close_empty : i.close pipeReader ∅ = i := by
  refine ext (fun m => ?_) (fun m => close_waits_of_notMem (Set.notMem_empty m)) rfl
  rw [mem_close]
  exact and_iff_left fun hm => Set.notMem_empty m hm.1

end Close

end Interest

/-! ### The tables of a backend -/

/-- The abstract state is what the members of `multiplexer_base` hold. -/
structure Refines {δ : Type} (pipeReader : SocketId) (i : Interest) (s : MultiplexerBase δ) : Prop where
  registered : ∀ m, m ∈ s.managers.elems ↔ m ∈ i.registered
  waits : s.mask = i.waits
  pipeReader : s.pipeReader = pipeReader
  shuttingDown : s.shuttingDown = i.shuttingDown

/-- The members that count are the same. -/
structure Same {δ : Type} (s s' : MultiplexerBase δ) : Prop where
  managers : s'.managers = s.managers
  mask : s'.mask = s.mask
  pipeReader : s'.pipeReader = s.pipeReader
  shuttingDown : s'.shuttingDown = s.shuttingDown

section Refines

variable {δ : Type} {pipeReader : SocketId} {i : Interest} {s s' : MultiplexerBase δ}

theorem Same.trans {s s' s'' : MultiplexerBase δ} (h : Same s s') (h' : Same s' s'') : Same s s'' :=
  ⟨h'.managers.trans h.managers, h'.mask.trans h.mask, h'.pipeReader.trans h.pipeReader,
    h'.shuttingDown.trans h.shuttingDown⟩

theorem Same.del (h : Same s s') (handle : SocketId) : Same (s.del handle) (s'.del handle) :=
  ⟨congrArg (·.erase handle) h.managers, h.mask, h.pipeReader, h.shuttingDown⟩

theorem Refines.congr (h : Refines pipeReader i s) (hs : Same s s') : Refines pipeReader i s' :=
  ⟨fun m => hs.managers ▸ h.registered m, hs.mask.trans h.waits, hs.pipeReader.trans h.pipeReader,
    hs.shuttingDown.trans h.shuttingDown⟩

theorem Refines.maskSet (h : Refines pipeReader i s) (mgr : Manager) (mask : Operation) :
    Refines pipeReader { i with waits := Function.update i.waits mgr mask } (s.maskSet mgr mask) :=
  ⟨h.registered, congrArg (fun waits : Manager → Operation => Function.update waits mgr mask) h.waits,
    h.pipeReader, h.shuttingDown⟩

theorem Refines.del (h : Refines pipeReader i s) (handle : SocketId) :
    Refines pipeReader (i.del handle) (s.del handle) :=
  ⟨fun m => KeyedMap.mem_erase.trans (and_congr_left' (h.registered m)), h.waits, h.pipeReader,
    h.shuttingDown⟩

/-- A registered manager is told by its socket. -/
theorem Refines.eq_of_handle (h : Refines pipeReader i s) {m mgr : Manager} (hm : m ∈ i.registered)
    (hmgr : mgr ∈ i.registered) (heq : m.handle = mgr.handle) : m = mgr :=
  List.inj_on_of_nodup_map s.managers.nodup ((h.registered m).mpr hm) ((h.registered mgr).mpr hmgr) heq

/-- The removal of a registered manager by its socket. -/
theorem Refines.remove (h : Refines pipeReader i s) {mgr : Manager} (hmgr : mgr ∈ i.registered) :
    Refines pipeReader { i with registered := {m | m ∈ i.registered ∧ m ≠ mgr} } (s.del mgr.handle) :=
  ⟨fun m => ((h.del mgr.handle).registered m).trans (and_congr_right fun hm =>
      not_congr ⟨h.eq_of_handle hm hmgr, congrArg Manager.handle⟩),
    h.waits, h.pipeReader, h.shuttingDown⟩

theorem Refines.add (h : Refines pipeReader i s) {mgr : Manager}
    (hfree : ∀ m ∈ i.registered, m.handle ≠ mgr.handle) :
    Refines pipeReader { i with registered := insert mgr i.registered } (s.add mgr) := by
  refine ⟨fun m => ?_, h.waits, h.pipeReader, h.shuttingDown⟩
  have hkey : mgr.handle ∉ s.managers.elems.map Manager.handle := by
    intro hmem
    obtain ⟨m', hm', heq⟩ := List.mem_map.mp hmem
    exact hfree m' ((h.registered m').mp hm') heq
  refine KeyedMap.mem_emplace.trans ?_
  rw [and_iff_left hkey, h.registered m]
  exact or_comm

end Refines

/-! ### The loop of `shutdown` -/

section Loop

variable {δ : Type} {pipeReader : SocketId}
  {disable del : Manager → MultiplexerBase δ → Except Fault (MultiplexerBase δ)}

/-- What the loop calls: a `disable` for reading and accepting, without removal, and the removal of an
element. -/
structure Serves (disable del : Manager → MultiplexerBase δ → Except Fault (MultiplexerBase δ)) : Prop where
  disable : ∀ mgr s, ∃ s', disable mgr s = .ok s' ∧ Same (s.maskSet mgr (cut (s.mask mgr))) s'
  del : ∀ mgr s, mgr ∈ s.managers.elems → ∃ s', del mgr s = .ok s' ∧ Same (s.del mgr.handle) s'

/-- **A round of the loop** closes one manager. -/
theorem Serves.round (hserves : Serves disable del) {i : Interest} {s : MultiplexerBase δ}
    (h : Refines pipeReader i s) {mgr : Manager} (hmgr : mgr ∈ i.registered) (rest : List Manager) :
    ∃ s', Refines pipeReader (i.close pipeReader {mgr}) s' ∧
      MultiplexerBase.shutdownLoop disable del (mgr :: rest) s =
        MultiplexerBase.shutdownLoop disable del rest s' := by
  have hmem : mgr ∈ s.managers.elems := (h.registered mgr).mpr hmgr
  rw [MultiplexerBase.shutdownLoop]
  by_cases hreader : mgr.handle = pipeReader
  · have hsame : i.close pipeReader {mgr} = i := by
      refine Interest.ext (fun m => ?_) (fun m => ?_) rfl
      · rw [Interest.mem_close]
        refine and_iff_left ?_
        rintro ⟨rfl, hne, -⟩
        exact hne hreader
      · by_cases hm : m = mgr
        · subst hm
          exact Interest.close_waits_pipeReader hreader
        · exact Interest.close_waits_of_notMem hm
    rw [hsame, if_neg fun hboth => hboth.2 (hreader.trans h.pipeReader.symm)]
    exact ⟨s, h, rfl⟩
  · rw [if_pos ⟨hmem, fun heq => hreader (heq.trans h.pipeReader)⟩]
    obtain ⟨s₁, hdisable, hsame⟩ := hserves.disable mgr s
    have hmem₁ : mgr ∈ s₁.managers.elems := hsame.managers ▸ hmem
    have hset := (h.maskSet mgr (cut (s.mask mgr))).congr hsame
    rw [hdisable]
    change ∃ s', _ ∧ (if mgr ∉ s₁.managers.elems then _ else _) = _
    rw [if_neg (not_not_intro hmem₁)]
    have hwaits : ∀ m, (i.close pipeReader {mgr}).waits m =
        Function.update i.waits mgr (cut (s.mask mgr)) m := by
      intro m
      by_cases hm : m = mgr
      · subst hm
        rw [Function.update_self, h.waits]
        exact Interest.close_waits (Set.mem_singleton _) hreader
      · rw [Function.update_of_ne hm]
        exact Interest.close_waits_of_notMem hm
    have hmask₁ : s₁.mask mgr = cut (i.waits mgr) := by
      rw [hsame.mask, MultiplexerBase.maskSet_mask_self, h.waits]
    by_cases hnone : cut (i.waits mgr) = Operation.none
    · rw [if_pos (hmask₁.trans hnone)]
      obtain ⟨s₂, hdel, hsame₂⟩ := hserves.del mgr s₁ hmem₁
      refine ⟨s₂, ?_, ?_⟩
      · have hclosed : i.close pipeReader {mgr} =
            { i with
              registered := {m | m ∈ i.registered ∧ m ≠ mgr}
              waits := Function.update i.waits mgr (cut (s.mask mgr)) } := by
          refine Interest.ext (fun m => and_congr_right fun _ => not_congr ?_) hwaits rfl
          constructor
          · exact fun hm => hm.1
          · rintro rfl
            exact ⟨rfl, hreader, hnone⟩
        rw [hclosed]
        exact (hset.remove hmgr).congr hsame₂
      · rw [hdel]
        rfl
    · rw [if_neg fun hm => hnone (hmask₁.symm.trans hm)]
      refine ⟨s₁, ?_, rfl⟩
      have hclosed : i.close pipeReader {mgr} =
          { i with waits := Function.update i.waits mgr (cut (s.mask mgr)) } := by
        refine Interest.ext (fun m => ?_) hwaits rfl
        rw [Interest.mem_close]
        refine and_iff_left ?_
        rintro ⟨rfl, -, hm⟩
        exact hnone hm
      rw [hclosed]
      exact hset

/-- **The loop of `shutdown`** closes all that it walks over, in whatever order. -/
theorem loop_refines (hserves : Serves disable del) (l : List Manager) (hl : l.Nodup) {i : Interest}
    {s : MultiplexerBase δ} (h : Refines pipeReader i s) (hmem : ∀ m ∈ l, m ∈ i.registered) :
    ∃ s', MultiplexerBase.shutdownLoop disable del l s = .ok s' ∧
      Refines pipeReader (i.close pipeReader {m | m ∈ l}) s' := by
  induction l generalizing i s with
  | nil =>
    refine ⟨s, rfl, ?_⟩
    have hempty : {m : Manager | m ∈ ([] : List Manager)} = ∅ := by simp
    rw [hempty, Interest.close_empty]
    exact h
  | cons mgr l ih =>
    obtain ⟨hnot, hl⟩ := List.nodup_cons.mp hl
    obtain ⟨s₁, h₁, hround⟩ := hserves.round h (hmem mgr List.mem_cons_self) l
    have hstays : ∀ m ∈ l, m ∈ (i.close pipeReader {mgr}).registered := fun m hm =>
      ⟨hmem m (List.mem_cons_of_mem mgr hm), fun hclosed => hnot (hclosed.1 ▸ hm)⟩
    obtain ⟨s', hloop, h'⟩ := ih hl h₁ hstays
    refine ⟨s', hround.trans hloop, ?_⟩
    have hset : {m | m ∈ mgr :: l} = insert mgr {m | m ∈ l} := by
      ext m
      simp
    rw [hset, ← Interest.close_insert hnot]
    exact h'

/-- **`shutdown`.** -/
theorem shutdownWith_refines (hserves : Serves disable del) {i : Interest} {s : MultiplexerBase δ}
    (h : Refines pipeReader i s) :
    ∃ s', s.shutdownWith disable del = .ok s' ∧ Refines pipeReader (i.shutdown pipeReader) s' := by
  have hbegun : Refines pipeReader { i with shuttingDown := true }
      ({ s.logShutdown with shuttingDown := true } : MultiplexerBase δ) :=
    ⟨h.registered, h.waits, h.pipeReader, rfl⟩
  obtain ⟨s', hloop, h'⟩ := loop_refines hserves s.managers.elems (List.Nodup.of_map _ s.managers.nodup)
    hbegun fun m hm => (h.registered m).mp hm
  refine ⟨{ s' with pipeWriter := invalidSocketId }, ?_, ?_⟩
  · unfold MultiplexerBase.shutdownWith
    dsimp only
    change MultiplexerBase.shutdownLoop disable del s.managers.elems _ >>= _ = _
    rw [hloop]
    rfl
  · have hset : {m | m ∈ s.managers.elems} = i.registered := Set.ext h.registered
    rw [hset] at h'
    exact ⟨h'.registered, h'.waits, h'.pipeReader, h'.shuttingDown⟩

end Loop

/-! ### Calls -/

/-- The calls from which all is made that happens on the thread of the multiplexer: an `add` is this
one, the calls that `init` of the manager makes, and `shutdown` if `init` fails. Each backend may order
its unordered map anew at any time. -/
inductive Call where
  | add (mgr : Manager) (initial : Operation)
  | registerReading (mgr : Manager)
  | registerWriting (mgr : Manager)
  | enable (mgr : Manager) (op : Operation)
  | disable (mgr : Manager) (op : Operation) (remove : Bool)
  | del (handle : SocketId)
  | shutdown
  | rehash (epoll kqueue : List Manager)

noncomputable def Interest.call (pipeReader : SocketId) (i : Interest) : Call → Interest
  | .add mgr initial => i.add mgr initial
  | .registerReading mgr => i.enable mgr Operation.read
  | .registerWriting mgr => i.enable mgr Operation.write
  | .enable mgr op => i.enable mgr op
  | .disable mgr op remove => i.disable mgr op remove
  | .del handle => i.del handle
  | .shutdown => i.shutdown pipeReader
  | .rehash _ _ => i

/-- A manager that is added is new and has a socket of its own, and the other calls are for registered
managers. -/
def Legal (i : Interest) : Call → Prop
  | .add mgr _ => (∀ m ∈ i.registered, m.handle ≠ mgr.handle) ∧ i.waits mgr = Operation.none
  | .registerReading mgr => mgr ∈ i.registered
  | .registerWriting mgr => mgr ∈ i.registered
  | .enable mgr _ => mgr ∈ i.registered
  | .disable mgr _ _ => mgr ∈ i.registered
  | _ => True

section Calls

variable {δ : Type} {pipeReader : SocketId} {i : Interest} {s : MultiplexerBase δ} {mgr : Manager}
  {op : Operation}

theorem enable_idle (h : i.waits mgr &&& op = op) : i.enable mgr op = i := by
  refine Interest.ext (fun m => Iff.rfl) (fun m => ?_) rfl
  change Function.update i.waits mgr (i.waits mgr ||| op) m = i.waits m
  have hor : i.waits mgr ||| op = i.waits mgr := by
    rw [← h]
    ext k hk
    simp only [BitVec.getElem_or, BitVec.getElem_and]
    cases (i.waits mgr)[k] <;> cases op[k] <;> rfl
  rw [hor, Function.update_eq_self]

/-- One flag is there or not. -/
theorem and_eq_of_side {mask side : Operation} (hside : side = Operation.read ∨ side = Operation.write)
    (hnone : mask &&& side ≠ Operation.none) : mask &&& side = side := by
  rcases hside with rfl | rfl
  · revert hnone mask
    decide
  · revert hnone mask
    decide

theorem disable_idle (h : maskDel (i.waits mgr) op = none) (remove : Bool) :
    i.disable mgr op remove = i := by
  refine Interest.ext (fun m => ?_) (fun m => ?_) rfl
  · exact and_iff_left fun hm => hm.2.2.1 (and_of_maskDel_none h)
  · change Function.update i.waits mgr (i.waits mgr &&& ~~~op) m = i.waits m
    rw [mask_of_maskDel_none h, Function.update_eq_self]

/-- What `enable` makes of the members, if it changes the mask. -/
theorem Refines.enable (h : Refines pipeReader i s) {mask : Operation}
    (hmask : maskAdd (s.mask mgr) op = some mask) :
    Refines pipeReader (i.enable mgr op) (s.maskSet mgr mask) := by
  obtain ⟨rfl, -, -⟩ := maskAdd_some hmask
  rw [h.waits]
  exact h.maskSet mgr _

/-- What `disable` makes of the members where the manager stays. -/
theorem Refines.disable (h : Refines pipeReader i s) {mask : Operation} {remove : Bool}
    (hmask : maskDel (s.mask mgr) op = some mask) (hstays : ¬(remove = true ∧ mask = Operation.none)) :
    Refines pipeReader (i.disable mgr op remove) (s.maskSet mgr mask) := by
  obtain rfl := mask_of_maskDel_some hmask
  rw [h.waits] at hstays ⊢
  have hset := h.maskSet mgr (i.waits mgr &&& ~~~op)
  refine ⟨fun m => (hset.registered m).trans (and_iff_left ?_).symm, hset.waits, hset.pipeReader,
    hset.shuttingDown⟩
  rintro ⟨-, hremove, -, hnone⟩
  exact hstays ⟨hremove, hnone⟩

/-- What it makes of them where the manager has lost its last operation. -/
theorem Refines.disable_last (h : Refines pipeReader i s) (hmgr : mgr ∈ i.registered) {mask : Operation}
    (hmask : maskDel (s.mask mgr) op = some mask) (hnone : mask = Operation.none) :
    Refines pipeReader (i.disable mgr op true) ((s.maskSet mgr mask).del mgr.handle) := by
  have hsome : i.waits mgr &&& op ≠ Operation.none := by
    intro hand
    unfold maskDel at hmask
    rw [h.waits, if_pos hand] at hmask
    cases hmask
  obtain rfl := mask_of_maskDel_some hmask
  rw [h.waits] at hnone ⊢
  have hremoved := (h.maskSet mgr (i.waits mgr &&& ~~~op)).remove hmgr
  refine ⟨fun m => (hremoved.registered m).trans (and_congr_right fun _ => not_congr ?_), hremoved.waits,
    hremoved.pipeReader, hremoved.shuttingDown⟩
  exact ⟨fun hm => ⟨hm, rfl, hsome, hnone⟩, fun hm => hm.1⟩

theorem Refines.register (h : Refines pipeReader i s) (initial : Operation)
    (hfree : ∀ m ∈ i.registered, m.handle ≠ mgr.handle) :
    Refines pipeReader (i.add mgr initial) ((s.maskSet mgr initial).add mgr) :=
  (h.maskSet mgr initial).add hfree

theorem Refines.rehash (h : Refines pipeReader i s) (order : List Manager) :
    Refines pipeReader i { s with managers := s.managers.rehash order } :=
  ⟨fun m => (KeyedMap.rehash_perm s.managers order).mem_iff.trans (h.registered m), h.waits, h.pipeReader,
    h.shuttingDown⟩

end Calls

/-! ### epoll -/

section Epoll

open Epoll.Model

variable {κ : Type} (ctl : EpollCtl κ) (depth : ℕ)

/-- A call of `epoll_multiplexer`. -/
def epollCall (s : EpollMultiplexer κ) : Call → Except Fault (EpollMultiplexer κ)
  | .add mgr initial =>
    (mod ctl (Epoll.Model.shutdown ctl depth) mgr.handle .add initial (s.maskSet mgr initial)).map (·.add mgr)
  | .registerReading mgr => register ctl (Epoll.Model.shutdown ctl depth) mgr Operation.read s
  | .registerWriting mgr => register ctl (Epoll.Model.shutdown ctl depth) mgr Operation.write s
  | .enable mgr op => Epoll.Model.enable ctl (Epoll.Model.shutdown ctl depth) mgr op s
  | .disable mgr op remove => Epoll.Model.disable ctl (Epoll.Model.shutdown ctl depth) mgr op remove s
  | .del handle => Epoll.Model.del ctl (Epoll.Model.shutdown ctl depth) handle s
  | .shutdown => Epoll.Model.shutdown ctl depth s
  | .rehash order _ => .ok { s with managers := s.managers.rehash order }

variable {ctl} (hctl : ∀ kernel op fd flags, (ctl kernel op fd flags).1 = true)
  {onError : EpollMultiplexer κ → Except Fault (EpollMultiplexer κ)} {pipeReader : SocketId}
  {i : Interest} {s : EpollMultiplexer κ} {mgr : Manager} {op : Operation}

include hctl

variable (onError) in
theorem epoll_mod_same (fd : SocketId) (op : CtlOp) (events : Operation) (s : EpollMultiplexer κ) :
    ∃ s', mod ctl onError fd op events s = .ok s' ∧ Same s s' := by
  refine ⟨_, if_pos (hctl _ _ _ _), rfl, rfl, rfl, rfl⟩

variable (onError) in
theorem epoll_del_same (handle : SocketId) (s : EpollMultiplexer κ) :
    ∃ s', Epoll.Model.del ctl onError handle s = .ok s' ∧ Same (s.del handle) s' := by
  obtain ⟨s₁, hmod, hsame⟩ := epoll_mod_same hctl onError handle .del Operation.none s
  refine ⟨erased handle s₁, ?_, ?_⟩
  · unfold Epoll.Model.del
    rw [hmod]
    rfl
  · have herased : Same (s₁.del handle) (erased handle s₁) := by
      refine ⟨erased_managers handle s₁, erased_mask handle s₁, erased_pipeReader handle s₁, ?_⟩
      unfold erased
      dsimp only
      split_ifs <;> rfl
    exact (hsame.del handle).trans herased

theorem epoll_delIt_same (hmgr : mgr ∈ s.managers.elems) :
    ∃ s', delIt ctl onError mgr s = .ok s' ∧ Same (s.del mgr.handle) s' := by
  obtain ⟨s₁, hmod, hsame⟩ := epoll_mod_same hctl onError mgr.handle .del Operation.none s
  have hmem : mgr ∈ s₁.managers.elems := hsame.managers ▸ hmgr
  refine ⟨s₁.eraseIt mgr, ?_, ?_⟩
  · unfold delIt
    rw [hmod]
    exact if_pos hmem
  · have hflag : (s₁.eraseIt mgr).shuttingDown = s₁.shuttingDown := by
      unfold MultiplexerBase.eraseIt
      dsimp only
      split_ifs <;> rfl
    exact (hsame.del mgr.handle).trans ⟨MultiplexerBase.eraseIt_managers s₁ mgr,
      MultiplexerBase.eraseIt_mask s₁ mgr, MultiplexerBase.eraseIt_pipeReader s₁ mgr, hflag⟩

theorem epoll_enable_refines (h : Refines pipeReader i s) :
    ∃ s', Epoll.Model.enable ctl onError mgr op s = .ok s' ∧ Refines pipeReader (i.enable mgr op) s' := by
  unfold Epoll.Model.enable
  cases hmask : maskAdd (s.mask mgr) op with
  | none =>
    have hidle := maskAdd_none hmask
    rw [h.waits] at hidle
    rw [enable_idle hidle]
    exact ⟨s, rfl, h⟩
  | some mask =>
    obtain ⟨s', hmod, hsame⟩ := epoll_mod_same hctl onError mgr.handle .mod mask
      (s.maskSet mgr mask)
    exact ⟨s', hmod, (h.enable hmask).congr hsame⟩

theorem epoll_disable_refines {remove : Bool} (h : Refines pipeReader i s) (hmgr : mgr ∈ i.registered) :
    ∃ s', Epoll.Model.disable ctl onError mgr op remove s = .ok s' ∧
      Refines pipeReader (i.disable mgr op remove) s' := by
  unfold Epoll.Model.disable
  cases hmask : maskDel (s.mask mgr) op with
  | none =>
    rw [h.waits] at hmask
    rw [disable_idle hmask]
    exact ⟨s, rfl, h⟩
  | some mask =>
    obtain ⟨s₁, hmod, hsame⟩ := epoll_mod_same hctl onError mgr.handle .mod mask
      (s.maskSet mgr mask)
    have hmem : mgr ∈ s₁.managers.elems := hsame.managers ▸ (h.registered mgr).mpr hmgr
    have hmask₁ : s₁.mask mgr = mask := by
      rw [hsame.mask, MultiplexerBase.maskSet_mask_self]
    dsimp only
    rw [hmod]
    change ∃ s', (if remove = true then _ else _) = _ ∧ _
    by_cases hremove : remove = true
    · subst hremove
      rw [if_pos rfl, if_pos hmem, hmask₁]
      by_cases hnone : mask = Operation.none
      · rw [if_pos hnone]
        obtain ⟨s₂, hdel, hsame₂⟩ := epoll_del_same hctl onError mgr.handle s₁
        have hlast := (h.disable_last hmgr hmask hnone).congr (hsame.del mgr.handle)
        exact ⟨s₂, hdel, hlast.congr hsame₂⟩
      · rw [if_neg hnone]
        exact ⟨s₁, rfl, (h.disable hmask fun hboth => hnone hboth.2).congr hsame⟩
    · rw [if_neg hremove]
      exact ⟨s₁, rfl, (h.disable hmask fun hboth => hremove hboth.1).congr hsame⟩

theorem epoll_serves : Serves (fun mgr => Epoll.Model.disable ctl onError mgr Operation.readAccept false)
    (delIt ctl onError) where
  disable mgr s := by
    unfold Epoll.Model.disable
    cases hmask : maskDel (s.mask mgr) Operation.readAccept with
    | none =>
      refine ⟨s, rfl, rfl, ?_, rfl, rfl⟩
      change s.mask = Function.update s.mask mgr (cut (s.mask mgr))
      rw [show cut (s.mask mgr) = s.mask mgr from mask_of_maskDel_none hmask, Function.update_eq_self]
    | some mask =>
      obtain rfl := mask_of_maskDel_some hmask
      obtain ⟨s', hmod, hsame⟩ := epoll_mod_same hctl onError mgr.handle .mod
        (s.mask mgr &&& ~~~Operation.readAccept) (s.maskSet mgr (s.mask mgr &&& ~~~Operation.readAccept))
      refine ⟨s', ?_, hsame⟩
      dsimp only
      rw [hmod]
      rfl
  del mgr s hmgr := epoll_delIt_same hctl hmgr

theorem epoll_register_refines {side : Operation} (hside : side = Operation.read ∨ side = Operation.write)
    (h : Refines pipeReader i s) :
    ∃ s', register ctl onError mgr side s = .ok s' ∧ Refines pipeReader (i.enable mgr side) s' := by
  unfold register
  by_cases hnone : s.mask mgr &&& side = Operation.none
  · rw [if_pos hnone]
    exact epoll_enable_refines hctl h
  · rw [if_neg hnone]
    rw [h.waits] at hnone
    rw [enable_idle (and_eq_of_side hside hnone)]
    exact ⟨s, rfl, h⟩

/-- **epoll** keeps the abstract state. -/
theorem epollCall_refines {c : Call} (h : Refines pipeReader i s) (hlegal : Legal i c) :
    ∃ s', epollCall ctl (depth + 1) s c = .ok s' ∧ Refines pipeReader (i.call pipeReader c) s' := by
  cases c with
  | add mgr initial =>
    obtain ⟨s', hmod, hsame⟩ := epoll_mod_same hctl (Epoll.Model.shutdown ctl (depth + 1))
      mgr.handle .add initial (s.maskSet mgr initial)
    refine ⟨s'.add mgr, ?_, ?_⟩
    · change Except.map (·.add mgr) (mod ctl _ mgr.handle .add initial _) = _
      rw [hmod]
      rfl
    · exact ((h.maskSet mgr initial).congr hsame).add hlegal.1
  | registerReading mgr => exact epoll_register_refines hctl (.inl rfl) h
  | registerWriting mgr => exact epoll_register_refines hctl (.inr rfl) h
  | enable mgr op => exact epoll_enable_refines hctl h
  | disable mgr op remove => exact epoll_disable_refines hctl h hlegal
  | del handle =>
    obtain ⟨s', hdel, hsame⟩ := epoll_del_same hctl (Epoll.Model.shutdown ctl (depth + 1)) handle s
    exact ⟨s', hdel, (h.del handle).congr hsame⟩
  | shutdown => exact shutdownWith_refines (epoll_serves hctl) h
  | rehash order _ => exact ⟨_, rfl, h.rehash order⟩

omit hctl in
/-- **The whole of `add`**, with an `init` that makes calls, is a run of calls. -/
theorem epoll_add_eq (mgr : Manager) (initial : Operation) (calls : List Call) (ok : Bool)
    (s : EpollMultiplexer κ) :
    Epoll.Model.add ctl (Epoll.Model.shutdown ctl depth) mgr initial
        (fun s => (calls.foldlM (epollCall ctl depth) s).map (ok, ·)) s =
      (.add mgr initial :: (calls ++ if ok then [] else [.shutdown])).foldlM (epollCall ctl depth) s := by
  rw [List.foldlM_cons, Epoll.Model.add]
  change _ = Except.map (·.add mgr) (mod ctl _ mgr.handle .add initial (s.maskSet mgr initial)) >>= _
  cases mod ctl (Epoll.Model.shutdown ctl depth) mgr.handle .add initial (s.maskSet mgr initial) with
  | error fault => rfl
  | ok s₁ =>
    change ((calls.foldlM (epollCall ctl depth) (s₁.add mgr)).map (ok, ·) >>= _) =
      (calls ++ if ok then [] else [Call.shutdown]).foldlM (epollCall ctl depth) (s₁.add mgr)
    rw [List.foldlM_append]
    cases calls.foldlM (epollCall ctl depth) (s₁.add mgr) with
    | error fault => rfl
    | ok s₂ =>
      cases ok with
      | true => rfl
      | false =>
        change Epoll.Model.shutdown ctl depth s₂ = Epoll.Model.shutdown ctl depth s₂ >>= pure
        exact (bind_pure _).symm

end Epoll

/-! ### kqueue -/

section Kqueue

open Kqueue.Model
open Kqueue.Events (registerFor)

/-- A call of `kqueue_multiplexer`. -/
def kqueueCall (s : KqueueMultiplexer) : Call → Except Fault KqueueMultiplexer
  | .add mgr initial => .ok (register mgr initial s)
  | .registerReading mgr => .ok (registerFor mgr Operation.read s)
  | .registerWriting mgr => .ok (registerFor mgr Operation.write s)
  | .enable mgr op => .ok (Kqueue.Model.enable mgr op s)
  | .disable mgr op remove => .ok (Kqueue.Model.disable mgr op remove s)
  | .del handle => .ok (Kqueue.Model.del handle s)
  | .shutdown => Kqueue.Model.shutdown s
  | .rehash _ order => .ok { s with managers := s.managers.rehash order }

variable {pipeReader : SocketId} {i : Interest} {s : KqueueMultiplexer} {mgr : Manager} {op : Operation}

theorem kqueue_mod_same (fd : SocketId) (flags : KeventFlags) (events : Operation) (s : KqueueMultiplexer) :
    Same s (mod fd flags events s) := by
  unfold mod
  split_ifs <;> exact ⟨rfl, rfl, rfl, rfl⟩

theorem stopIfLast_same (s : KqueueMultiplexer) : Same s (stopIfLast s) := by
  unfold stopIfLast
  split_ifs <;> exact ⟨rfl, rfl, rfl, rfl⟩

theorem kqueue_del_same (handle : SocketId) (s : KqueueMultiplexer) :
    Same (s.del handle) (Kqueue.Model.del handle s) :=
  ((kqueue_mod_same handle evDelete Operation.readWrite s).del handle).trans (stopIfLast_same _)

theorem kqueue_enable_refines (h : Refines pipeReader i s) :
    Refines pipeReader (i.enable mgr op) (Kqueue.Model.enable mgr op s) := by
  unfold Kqueue.Model.enable
  cases hmask : maskAdd (s.mask mgr) op with
  | none =>
    have hidle := maskAdd_none hmask
    rw [h.waits] at hidle
    rw [enable_idle hidle]
    exact h
  | some mask => exact (h.enable hmask).congr (kqueue_mod_same _ _ _ _)

theorem kqueue_disable_refines {remove : Bool} (h : Refines pipeReader i s) (hmgr : mgr ∈ i.registered) :
    Refines pipeReader (i.disable mgr op remove) (Kqueue.Model.disable mgr op remove s) := by
  unfold Kqueue.Model.disable
  cases hmask : maskDel (s.mask mgr) op with
  | none =>
    rw [h.waits] at hmask
    rw [disable_idle hmask]
    exact h
  | some mask =>
    have hsame := kqueue_mod_same mgr.handle evDisable op (s.maskSet mgr mask)
    dsimp only
    rw [hsame.mask, MultiplexerBase.maskSet_mask_self]
    by_cases hlast : (remove && decide (mask = Operation.none)) = true
    · rw [if_pos hlast]
      obtain ⟨rfl, hnone⟩ := Bool.and_eq_true_iff.mp hlast
      have hremoved := (h.disable_last hmgr hmask (of_decide_eq_true hnone)).congr (hsame.del mgr.handle)
      exact hremoved.congr (kqueue_del_same mgr.handle _)
    · rw [if_neg hlast]
      refine (h.disable hmask fun hboth => hlast ?_).congr hsame
      exact Bool.and_eq_true_iff.mpr ⟨hboth.1, decide_eq_true hboth.2⟩

theorem kqueue_serves : Serves
    (fun mgr (s : KqueueMultiplexer) => .ok (Kqueue.Model.disable mgr Operation.readAccept false s))
    (fun mgr s => .ok (delIt mgr s)) where
  disable mgr s := by
    refine ⟨_, rfl, ?_⟩
    unfold Kqueue.Model.disable
    cases hmask : maskDel (s.mask mgr) Operation.readAccept with
    | none =>
      refine ⟨rfl, ?_, rfl, rfl⟩
      change s.mask = Function.update s.mask mgr (cut (s.mask mgr))
      rw [show cut (s.mask mgr) = s.mask mgr from mask_of_maskDel_none hmask, Function.update_eq_self]
    | some mask =>
      obtain rfl := mask_of_maskDel_some hmask
      dsimp only
      rw [Bool.false_and, if_neg Bool.false_ne_true]
      exact kqueue_mod_same mgr.handle evDisable Operation.readAccept _
  del mgr s _ := ⟨_, rfl, kqueue_del_same mgr.handle s⟩

theorem kqueue_register_refines {side : Operation} (hside : side = Operation.read ∨ side = Operation.write)
    (h : Refines pipeReader i s) : Refines pipeReader (i.enable mgr side) (registerFor mgr side s) := by
  unfold registerFor
  by_cases hnone : s.mask mgr &&& side = Operation.none
  · rw [if_pos hnone]
    exact kqueue_enable_refines h
  · rw [if_neg hnone]
    rw [h.waits] at hnone
    rw [enable_idle (and_eq_of_side hside hnone)]
    exact h

/-- **kqueue** keeps the abstract state. -/
theorem kqueueCall_refines {c : Call} (h : Refines pipeReader i s) (hlegal : Legal i c) :
    ∃ s', kqueueCall s c = .ok s' ∧ Refines pipeReader (i.call pipeReader c) s' := by
  cases c with
  | add mgr initial =>
    refine ⟨_, rfl, ?_⟩
    have hadded := kqueue_mod_same mgr.handle (evAdd ||| evDisable) Operation.readWrite s
    -- a new manager has an empty mask, so what is enabled is what it waits for
    have henabled : Refines pipeReader (i.enable mgr initial) (Kqueue.Model.enable mgr initial
        (mod mgr.handle (evAdd ||| evDisable) Operation.readWrite s)) :=
      kqueue_enable_refines (h.congr hadded)
    have hwaits : i.enable mgr initial = { i with waits := Function.update i.waits mgr initial } := by
      unfold Interest.enable
      rw [hlegal.2, show Operation.none ||| initial = initial from BitVec.zero_or]
    rw [hwaits] at henabled
    exact henabled.add hlegal.1
  | registerReading mgr => exact ⟨_, rfl, kqueue_register_refines (.inl rfl) h⟩
  | registerWriting mgr => exact ⟨_, rfl, kqueue_register_refines (.inr rfl) h⟩
  | enable mgr op => exact ⟨_, rfl, kqueue_enable_refines h⟩
  | disable mgr op remove => exact ⟨_, rfl, kqueue_disable_refines h hlegal⟩
  | del handle => exact ⟨_, rfl, (h.del handle).congr (kqueue_del_same handle s)⟩
  | shutdown => exact shutdownWith_refines kqueue_serves h
  | rehash _ order => exact ⟨_, rfl, h.rehash order⟩

end Kqueue

/-! ### Both backends -/

section Both

open Epoll.Model (EpollCtl EpollMultiplexer)
open Kqueue.Model (KqueueMultiplexer)

variable {κ : Type} (ctl : EpollCtl κ) (depth : ℕ) (pipeReader pipeWriter : SocketId)

/-- A run on both backends, with the abstract one. -/
structure Both (κ : Type) where
  epoll : Except Fault (EpollMultiplexer κ)
  kqueue : Except Fault KqueueMultiplexer
  interest : Interest

/-- One call. -/
noncomputable def step (x : Both κ) (c : Call) : Both κ :=
  ⟨x.epoll >>= (epollCall ctl depth · c), x.kqueue >>= (kqueueCall · c), x.interest.call pipeReader c⟩

/-- Multiplexers that have made their pipe and are about to add the updater. -/
def start (kernel : κ) : Both κ where
  epoll := .ok { MultiplexerBase.init ⟨kernel, []⟩ with pipeReader := pipeReader, pipeWriter := pipeWriter }
  kqueue := .ok (Kqueue.Model.start pipeReader pipeWriter)
  interest := ⟨∅, fun _ => Operation.none, false⟩

/-- The backends have the same managers, whatever the order of their tables, with the same masks, and
they are those of the abstract one. -/
structure Agree (x : Both κ) (s : EpollMultiplexer κ) (t : KqueueMultiplexer) : Prop where
  epoll : x.epoll = .ok s
  kqueue : x.kqueue = .ok t
  managers : s.managers.elems.Perm t.managers.elems
  masks : s.mask = t.mask
  shuttingDown : s.shuttingDown = t.shuttingDown
  refines : Refines pipeReader x.interest s

variable {pipeReader} in
theorem agree_of_refines {x : Both κ} {s : EpollMultiplexer κ} {t : KqueueMultiplexer}
    (hs : x.epoll = .ok s) (ht : x.kqueue = .ok t) (hrs : Refines pipeReader x.interest s)
    (hrt : Refines pipeReader x.interest t) : Agree pipeReader x s t where
  epoll := hs
  kqueue := ht
  managers := by
    refine (List.perm_ext_iff_of_nodup (List.Nodup.of_map _ s.managers.nodup)
      (List.Nodup.of_map _ t.managers.nodup)).mpr fun m => ?_
    exact (hrs.registered m).trans (hrt.registered m).symm
  masks := hrs.waits.trans hrt.waits.symm
  shuttingDown := hrs.shuttingDown.trans hrt.shuttingDown.symm
  refines := hrs

/-- **The backends agree.** Whatever calls are made and however each backend orders its map, as long as
`epoll_ctl` succeeds: neither backend faults, and after every call both have the same managers, waiting
for the same operations, which are those of the abstract multiplexer. -/
theorem backends_agree (hctl : ∀ kernel op fd flags, (ctl kernel op fd flags).1 = true) (kernel : κ)
    (calls : List Call)
    (hlegal : Along (step ctl (depth + 1) pipeReader) (fun x => Legal x.interest)
      (start pipeReader pipeWriter kernel) calls) :
    Always (step ctl (depth + 1) pipeReader) (fun x => ∃ s t, Agree pipeReader x s t)
      (start pipeReader pipeWriter kernel) calls := by
  have hrefined : Always (step ctl (depth + 1) pipeReader)
      (fun x => ∃ s t, x.epoll = .ok s ∧ x.kqueue = .ok t ∧ Refines pipeReader x.interest s ∧
        Refines pipeReader x.interest t) (start pipeReader pipeWriter kernel) calls := by
    refine always_of_along ?_ ⟨_, _, rfl, rfl, ?_, ?_⟩ hlegal
    · rintro x c ⟨s, t, hs, ht, hrs, hrt⟩ hc
      obtain ⟨s', hs', hrs'⟩ := epollCall_refines depth hctl hrs hc
      obtain ⟨t', ht', hrt'⟩ := kqueueCall_refines hrt hc
      refine ⟨s', t', ?_, ?_, hrs', hrt'⟩
      · unfold step
        dsimp only
        rw [hs]
        exact hs'
      · unfold step
        dsimp only
        rw [ht]
        exact ht'
    · exact ⟨fun m => iff_of_false List.not_mem_nil (Set.notMem_empty m), rfl, rfl, rfl⟩
    · exact ⟨fun m => iff_of_false List.not_mem_nil (Set.notMem_empty m), rfl, rfl, rfl⟩
  exact hrefined.imp fun x ⟨s, t, hs, ht, hrs, hrt⟩ => ⟨s, t, agree_of_refines hs ht hrs hrt⟩

/-- The updater and a transport; the transport writes, loses both its operations and is gone, and one
that accepts goes with `shutdown`, after one of the backends has ordered its map anew. -/
theorem backends_agree_transport :
    let updater : Manager := ⟨0, 3⟩
    let transport : Manager := ⟨1, 5⟩
    let acceptor : Manager := ⟨2, 7⟩
    let calls : List Call := [.add updater Operation.read, .add transport Operation.read,
      .registerWriting transport, .disable transport Operation.read true,
      .disable transport Operation.write true, .add acceptor Operation.accept,
      .rehash [acceptor, updater] [], .shutdown]
    let ctl : EpollCtl Unit := fun kernel _ _ _ => (true, kernel)
    Along (step ctl 1 3) (fun x => Legal x.interest) (start 3 4 ()) calls ∧
      Always (step ctl 1 3) (fun x => ∃ s t, Agree 3 x s t) (start 3 4 ()) calls := by
  intro updater transport acceptor calls ctl
  have hlegal : Along (step ctl 1 3) (fun x => Legal x.interest) (start 3 4 ()) calls := by
    refine ⟨⟨?_, rfl⟩, ⟨?_, rfl⟩, ?_, ?_, ?_, ⟨?_, rfl⟩, trivial, trivial, trivial⟩
    · exact fun m hm => (Set.notMem_empty m hm).elim
    · rintro m (rfl | hm)
      · decide
      · exact (Set.notMem_empty m hm).elim
    · exact Set.mem_insert _ _
    · exact Set.mem_insert _ _
    · exact ⟨Set.mem_insert _ _, by decide⟩
    · rintro m ⟨⟨rfl | rfl | hm, hstays⟩, hleft⟩
      · exact absurd (by decide) hleft
      · decide
      · exact (Set.notMem_empty m hm).elim
  exact ⟨hlegal, backends_agree ctl 0 3 4 (fun _ _ _ _ => rfl) () calls hlegal⟩

end Both

end NetworkDriver.Net.Multiplexer.Readiness

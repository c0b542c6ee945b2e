import TinyRedis.Db.ZSet
import TinyRedis.Lib.Safe
import TinyRedis.Rdb.Format

/-!
# What the loader reads

Every function of the loader is described three times over. Wherever the reader stands, it does not
go past the end of the buffer, and an error is one that `LoadFromFile` reports (`safe_…`). In front
of the bytes of a part of a dump, it takes these bytes and returns what they are loaded to
(`reads_…`). And what it has taken when it ends without having failed is such a part (`takes_…`).
-/

namespace TinyRedis.Rdb

open Lib Lib.ByteReader List

variable {n v : ℕ} {s : LoadState} {z : ZSetValue} {α X : Type} {R : Bytes → α → Prop}
  {P : α → Prop} {m : LoadM α} {post : α → LoadState → Prop} {enc : X → Bytes} {loop : ℕ → LoadM α}
  {mk : α → Value} {bs : Bytes} {default : α} {get : Bytes → α}

/-! ## The reader -/

/-- What is still ahead of the reader. -/
def view (s : LoadState) : Option Bytes :=
  if s.r.ok ∧ s.r.pos ≤ s.r.buf.length then some (s.r.buf.drop s.r.pos) else none

/-- The reader has not gone past the end. -/
def InBounds (s : LoadState) : Prop := s.r.pos ≤ s.r.buf.length

/-- The reader has not gone past the end, and has not failed. -/
def Good (s : LoadState) : Prop := InBounds s ∧ s.r.ok = true

/-- An error that `LoadFromFile` reports. -/
def Refusal (e : LoadError) : Prop := ∃ msg, e = .refused msg

/-- What is ahead of a good reader. -/
theorem view_of_good (h : Good s) : view s = some (s.r.buf.drop s.r.pos) :=
  if_pos ⟨h.2, h.1⟩

/-- A reader with something ahead is good. -/
theorem good_of_view (h : view s = some bs) : Good s ∧ s.r.buf.drop s.r.pos = bs := by
  unfold view at h
  split_ifs at h with hc
  exact ⟨⟨hc.2, hc.1⟩, Option.some.inj h⟩

/-- A read, without the fault that it does not have. -/
theorem read_take (n : ℕ) (default : α) (get : Bytes → α) (s : LoadState) :
    read (Reader.take n default get) s =
      if !s.r.ok || decide (s.r.buf.length < s.r.pos + n) then
        .ok (default, { s with r := { s.r with ok := false } })
      else .ok (get ((s.r.buf.drop s.r.pos).take n),
        { s with r := { s.r with pos := s.r.pos + n } })
        := by
  unfold read Reader.take
  split_ifs with h
  · rfl
  · have hle : s.r.pos + n ≤ s.r.buf.length := by
      simp only [Bool.or_eq_true, decide_eq_true_eq, not_or, Nat.not_lt] at h
      exact h.2
    rw [slice_eq_ok hle]
    rfl

/-- A read stays in bounds. -/
theorem safe_take (hdefault : P default) (hget : ∀ bs, bs.length = n → P (get bs)) :
    Safe InBounds Refusal (read (Reader.take n default get)) P := by
  refine Safe.intro fun s hs => ?_
  rw [read_take]
  split_ifs with h
  · exact ⟨hs, hdefault⟩
  · simp only [Bool.or_eq_true, decide_eq_true_eq, not_or, Nat.not_lt] at h
    refine ⟨h.2, hget _ ?_⟩
    rw [length_take, length_drop]
    omega

/-- A read of what is there. -/
theorem reads_take (default : α) (get : Bytes → α) (hlen : bs.length = n) :
    Reads view (read (Reader.take n default get)) bs (· = get bs) := by
  intro s rest hs
  obtain ⟨⟨hpos, hok⟩, hdrop⟩ := good_of_view hs
  have hbound : s.r.pos + n ≤ s.r.buf.length := by
    have := congrArg List.length hdrop
    rw [length_drop, length_append] at this
    unfold InBounds at hpos
    omega
  have htake : (s.r.buf.drop s.r.pos).take n = bs := by rw [hdrop, ← hlen, take_left]
  refine ⟨get bs, { s with r := { s.r with pos := s.r.pos + n } }, ?_, rfl, ?_⟩
  · rw [read_take, if_neg (by simp [hok]; omega), htake]
  · unfold view
    rw [if_pos ⟨hok, hbound⟩]
    dsimp only
    rw [← drop_drop, hdrop, ← hlen, drop_left]

/-- What a read has taken. -/
theorem takes_take :
    Takes view (read (Reader.take n default get)) fun bs a => bs.length = n ∧ a = get bs := by
  intro s a s' rest hr hs
  rw [read_take] at hr
  split_ifs at hr with h
  · cases hr
    exact absurd (good_of_view hs).1.2 (by simp)
  · cases hr
    simp only [Bool.or_eq_true, decide_eq_true_eq, not_or, Nat.not_lt, Bool.not_eq_true',
      Bool.not_eq_false] at h
    obtain ⟨-, hdrop⟩ := good_of_view hs
    dsimp only at hdrop
    refine ⟨(s.r.buf.drop s.r.pos).take n, ?_, ?_, rfl⟩
    · rw [view_of_good ⟨show s.r.pos ≤ s.r.buf.length by omega, h.1⟩, ← hdrop, ← drop_drop,
        take_append_drop]
    · rw [length_take, length_drop]
      omega

/-! ## Numbers -/

/-- `U8`. -/
theorem safe_u8 : Safe InBounds Refusal (read Reader.u8) fun _ => True :=
  safe_take trivial fun _ _ => trivial

/-- `U32`. -/
theorem safe_u32 : Safe InBounds Refusal (read Reader.u32) (· < 2^32) :=
  safe_take (by decide) fun bs hlen => by
    have := LittleEndian.get_lt bs
    rwa [hlen] at this

/-- `U64`. -/
theorem safe_u64 : Safe InBounds Refusal (read Reader.u64) fun _ => True :=
  safe_take trivial fun _ _ => trivial

/-- `F64`. -/
theorem safe_f64 : Safe InBounds Refusal (read Reader.f64) fun _ => True :=
  safe_take trivial fun _ _ => trivial

/-- `Bytes`. -/
theorem safe_bytes (len : ℕ) : Safe InBounds Refusal (read (Reader.bytes len)) fun _ => True :=
  safe_take trivial fun _ _ => trivial

/-- A number that fits is read back. -/
theorem reads_number (k : ℕ) (h : v < 256^k) :
    Reads view (read (Reader.take k 0 LittleEndian.get)) (LittleEndian.put k v) (· = v) := by
  have := reads_take 0 LittleEndian.get (LittleEndian.length_put k v)
  rwa [LittleEndian.get_put_of_lt h] at this

/-- `U8`. -/
theorem reads_u8 (h : v < 2^8) :
    Reads view (read Reader.u8) (LittleEndian.put 1 v) (· = v) := reads_number 1 h

/-- `U32`. -/
theorem reads_u32 (h : v < 2^32) :
    Reads view (read Reader.u32) (LittleEndian.put 4 v) (· = v) := reads_number 4 h

/-- `U64`. -/
theorem reads_u64 (v : UInt64) :
    Reads view (read Reader.u64) (LittleEndian.put 8 v.toNat) (· = v.toNat) :=
  reads_number 8 v.toNat_lt

/-- `F64`. -/
theorem reads_f64 (d : Double) : Reads view (read Reader.f64) (encodeF64 d) (· = d) := by
  have := reads_take (⟨0⟩ : Double) (fun s => ⟨UInt64.ofNat (LittleEndian.get s)⟩)
    (LittleEndian.length_put 8 d.bits.toNat)
  rwa [LittleEndian.get_put_of_lt (by have := d.bits.toNat_lt; omega), UInt64.ofNat_toNat] at this

/-- Some bytes are those of the number that they are read as. -/
theorem takes_number (k : ℕ) : Takes view (read (Reader.take k 0 LittleEndian.get)) fun bs v =>
    bs = LittleEndian.put k v ∧ v < 256^k := by
  refine takes_take.imp ?_
  rintro bs v ⟨rfl, rfl⟩
  exact ⟨(LittleEndian.put_get bs).symm, LittleEndian.get_lt bs⟩

/-- `U8`. -/
theorem takes_u8 : Takes view (read Reader.u8) fun bs v => bs = LittleEndian.put 1 v ∧ v < 2^8 :=
  takes_number 1

/-- `U32`. -/
theorem takes_u32 : Takes view (read Reader.u32) fun bs v => bs = LittleEndian.put 4 v ∧ v < 2^32 :=
  takes_number 4

/-- `U64`. -/
theorem takes_u64 : Takes view (read Reader.u64) fun bs v =>
    bs = LittleEndian.put 8 (UInt64.ofNat v).toNat := by
  refine (takes_number 8).imp ?_
  rintro bs v ⟨rfl, hv⟩
  rw [UInt64.toNat_ofNat_of_lt' hv]

/-- `F64`. -/
theorem takes_f64 : Takes view (read Reader.f64) fun bs d => bs = encodeF64 d := by
  refine takes_take.imp ?_
  rintro bs d ⟨hlen, rfl⟩
  have hlt := LittleEndian.get_lt bs
  rw [hlen] at hlt
  unfold encodeF64
  rw [UInt64.toNat_ofNat_of_lt' hlt, ← hlen, LittleEndian.put_get]

/-- The check passes. -/
theorem reads_readerOk : Reads view readerOk [] (· = true) := by
  intro s rest hs
  refine ⟨true, s, ?_, rfl, hs⟩
  unfold readerOk
  rw [(good_of_view hs).1.2]

/-- The check has passed. -/
theorem takes_readerOk : Takes view readerOk fun bs ok => bs = [] ∧ ok = true := by
  intro s ok s' rest hr hs
  cases hr
  exact ⟨[], hs, rfl, (good_of_view hs).1.2⟩

/-- A refusal. -/
theorem takes_refuse (msg : Bytes) : Takes view (refuse msg : LoadM α) R := Takes.error

/-! ## Strings -/

/-- `r.Bytes(r.U32())`. -/
theorem safe_readBytes : Safe InBounds Refusal readBytes fun _ => True :=
  safe_u32.bind fun len _ => safe_bytes len

/-- A string is read back. -/
theorem reads_text (t : Text) : Reads view readBytes t.encode (· = t.1) := by
  refine (reads_u32 t.2).bind fun len hlen => ?_
  rw [hlen]
  exact reads_take [] id rfl

/-- What is read as a string. -/
theorem takes_readBytes : Takes view readBytes fun bs s => ∃ t : Text, bs = t.encode ∧ s = t.1 := by
  refine takes_u32.bind fun len => takes_take.imp ?_
  rintro ys s ⟨hlen, hs⟩ xs ⟨rfl, hlt⟩
  subst hlen
  exact ⟨⟨ys, hlt⟩, rfl, hs⟩

/-- A string is read, and something is made of it. -/
theorem reads_made (f : Bytes → α) (t : Text) :
    Reads view (do let s ← readBytes; pure (f s)) t.encode (· = f t.1) := by
  refine (reads_text t).bind_last fun s hs => ?_
  rw [hs]
  exact Reads.pure rfl

/-- What something was made of is a string. -/
theorem takes_made (f : Bytes → α) :
    Takes view (do let s ← readBytes; pure (f s)) fun bs a =>
      ∃ t : Text, bs = t.encode ∧ a = f t.1 := by
  refine takes_readBytes.bind fun s => Takes.pure ?_
  rintro xs ⟨t, rfl, rfl⟩
  exact ⟨t, append_nil _, rfl⟩

/-! ## Loops -/

section Loops

variable {step : α → LoadM α} {next : X → α → α → Prop}

/-- The loop over the elements of a collection. -/
theorem safe_readLoop (I : ℕ → α → Prop)
    (hstep : ∀ n a, I (n + 1) a → Safe InBounds Refusal (step a) (I n)) (n : ℕ) (a : α)
    (h : I n a) : Safe InBounds Refusal (readLoop step n a) fun _ => True := by
  induction n generalizing a with
  | zero => exact Safe.pure trivial
  | succ n ih =>
    unfold readLoop
    have hok : Safe InBounds Refusal readerOk fun _ => True :=
      Safe.intro fun s hs => ⟨hs, trivial⟩
    refine hok.bind fun ok _ => Safe.ite (fun _ => ?_) fun _ => Safe.pure trivial
    exact (hstep n a h).bind fun b hb => ih b hb

/-- The loop reads the elements. -/
theorem reads_readLoop (I : ℕ → α → Prop)
    (hstep : ∀ n x a, I (n + 1) a → Reads view (step a) (enc x) fun b => next x a b ∧ I n b)
    (xs : List X) (a : α) (h : I xs.length a) :
    Reads view (readLoop step xs.length a) (xs.flatMap enc) (Steps next xs a) := by
  refine Reads.loop I (fun a => rfl) (fun n x a cs Q hI hnext => ?_) xs a h
  unfold readLoop
  refine reads_readerOk.bind_nil fun ok hok => ?_
  rw [hok, if_pos rfl]
  exact (hstep n x a hI).bind fun b hb => hnext b hb.1 hb.2

/-- What the loop has read. -/
theorem takes_readLoop
    (hstep : ∀ a, Takes view (step a) fun bs b => ∃ x, bs = enc x ∧ next x a b) (n : ℕ) (a : α) :
    Takes view (readLoop step n a) fun bs c =>
      ∃ xs, xs.length = n ∧ bs = xs.flatMap enc ∧ Steps next xs a c := by
  refine Takes.loop (fun a => rfl) (fun n a R hnext => ?_) n a
  unfold readLoop
  refine takes_readerOk.bind fun ok => ?_
  cases ok with
  | false =>
    refine Takes.pure ?_
    rintro xs ⟨-, hc⟩
    cases hc
  | true =>
    rw [if_pos rfl]
    refine (hstep a).bind fun b => (hnext b).imp ?_
    rintro ys c hR xs ⟨x, rfl, hx⟩ ws ⟨rfl, -⟩
    exact hR x hx

/-- The loops over the tables, and over the entries of a table, with an invariant of the state. -/
theorem safe_readTimes {J : LoadState → Prop} (hstep : ∀ a, Safe J Refusal (step a) fun _ => True)
    (n : ℕ) (a : α) : Safe J Refusal (readTimes step n a) fun _ => True := by
  induction n generalizing a with
  | zero => exact Safe.pure trivial
  | succ n ih =>
    unfold readTimes
    exact (hstep a).bind fun b _ => ih b

/-- The loop reads the entries. -/
theorem reads_readTimes (hstep : ∀ x a, Reads view (step a) (enc x) (next x a)) (xs : List X)
    (a : α) : Reads view (readTimes step xs.length a) (xs.flatMap enc) (Steps next xs a) := by
  refine Reads.loop (fun _ _ => True) (fun a => rfl) (fun n x a cs Q _ hnext => ?_) xs a trivial
  unfold readTimes
  exact (hstep x a).bind fun b hb => hnext b hb trivial

/-- What it has read. -/
theorem takes_readTimes
    (hstep : ∀ a, Takes view (step a) fun bs b => ∃ x, bs = enc x ∧ next x a b) (n : ℕ) (a : α) :
    Takes view (readTimes step n a) fun bs c =>
      ∃ xs, xs.length = n ∧ bs = xs.flatMap enc ∧ Steps next xs a c := by
  refine Takes.loop (fun a => rfl) (fun n a R hnext => ?_) n a
  unfold readTimes
  refine (hstep a).bind fun b => (hnext b).imp ?_
  rintro ys c hR xs ⟨x, rfl, hx⟩
  exact hR x hx

end Loops

/-! ## Elements -/

/-- A field of a hash. -/
theorem reads_field (h : Dict Bytes Bytes) (kv : Text × Text) :
    Reads view (readField h) (encodeField kv) (· = addField h kv) := by
  refine (reads_text kv.1).bind fun fk hfk => ?_
  refine (reads_text kv.2).bind_last fun fv hfv => ?_
  rw [hfk, hfv]
  exact Reads.pure rfl

/-- What is read as a field. -/
theorem takes_field (h : Dict Bytes Bytes) :
    Takes view (readField h) fun bs h' => ∃ kv, bs = encodeField kv ∧ h' = addField h kv := by
  refine takes_readBytes.bind fun fk => takes_readBytes.bind fun fv => Takes.pure ?_
  rintro ys ⟨v, rfl, rfl⟩ xs ⟨k, rfl, rfl⟩
  exact ⟨(k, v), by rw [append_nil]; rfl, rfl⟩

/-- An element of a list. -/
theorem reads_element (l : List Bytes) (t : Text) :
    Reads view (readElement l) t.encode (· = l ++ [t.1]) := reads_made _ t

/-- What is read as an element. -/
theorem takes_element (l : List Bytes) :
    Takes view (readElement l) fun bs l' => ∃ t : Text, bs = t.encode ∧ l' = l ++ [t.1] :=
  takes_made _

/-- A member of a set. -/
theorem reads_member (s : Dict Bytes Unit) (t : Text) :
    Reads view (readMember s) t.encode (· = addMember s t) := reads_made _ t

/-- What is read as a member. -/
theorem takes_member (s : Dict Bytes Unit) :
    Takes view (readMember s) fun bs s' => ∃ t : Text, bs = t.encode ∧ s' = addMember s t :=
  takes_made _

/-- There is room for `n` more nodes in the skip list. -/
def Room (n : ℕ) (z : ZSetValue) : Prop :=
  ∃ es, SkipList.Holds z.sl es ∧ es.length + n ≤ maxNodes

/-- An empty list has room for as many as can be counted. -/
theorem room_empty (h : n < 2^32) : Room n ⟨SkipList.empty, ∅⟩ := by
  refine ⟨[], SkipList.holds_empty, ?_⟩
  unfold maxNodes
  rw [length_nil]
  omega

/-- Where there is room, a pair is put in. -/
theorem Room.insert (h : Room (n + 1) z) (flips : ℕ → Bool) (score : Double) (member : Bytes) :
    ∃ added sl, z.sl.insert (SkipList.randomLevel flips) score member = .ok (added, sl) ∧
      ∀ d, Room n ⟨sl, d⟩ := by
  obtain ⟨es, hes, hroom⟩ := h
  obtain ⟨hpos, hle⟩ := SkipList.randomLevel_bounds flips
  obtain ⟨as, bs, hcut, -, hcase⟩ := SkipList.insert_spec hes hpos hle score member
  have hlen := congrArg List.length hcut.split
  rw [length_append] at hlen
  rcases hcase with ⟨b, bs', sl', rfl, -, hr, hh⟩ | ⟨-, ⟨sl', hr, hh⟩ | ⟨-, hfull⟩⟩
  · refine ⟨false, sl', hr, fun d => ⟨_, hh, ?_⟩⟩
    rw [length_cons] at hlen
    rw [length_append, length_cons]
    omega
  · refine ⟨true, sl', hr, fun d => ⟨_, hh, ?_⟩⟩
    rw [length_append, length_cons]
    omega
  · omega

/-- `Insert` takes nothing from the input. -/
theorem slInsert_eq {flips : ℕ → ℕ → Bool} {sl sl' : SkipList Double} {score : Double}
    {member : Bytes} {added : Bool}
    (h : sl.insert (SkipList.randomLevel (flips s.draws)) score member = .ok (added, sl')) :
    slInsert flips sl score member s = .ok (sl', { s with draws := s.draws + 1 }) := by
  unfold slInsert
  rw [h]

/-- A member of a sorted set. -/
theorem safe_zMember (flips : ℕ → ℕ → Bool) (h : Room (n + 1) z) :
    Safe InBounds Refusal (readZMember flips z) (Room n) := by
  refine safe_readBytes.bind fun member _ => safe_f64.bind fun score _ => ?_
  refine Safe.bind (P := fun sl => ∀ d, Room n ⟨sl, d⟩) (Safe.intro fun s hs => ?_) fun sl hsl =>
    Safe.pure (hsl _)
  obtain ⟨added, sl, hr, hsl⟩ := h.insert (flips s.draws) score member
  rw [slInsert_eq hr]
  exact ⟨hs, hsl⟩

/-- It is put in. -/
theorem reads_zMember (flips : ℕ → ℕ → Bool) (h : Room (n + 1) z) (ms : Text × Double) :
    Reads view (readZMember flips z) (encodeScored ms) fun z' =>
      AddScored flips ms z z' ∧ Room n z' := by
  refine (reads_text ms.1).bind fun member hmember => ?_
  refine (reads_f64 ms.2).bind_last fun score hscore => ?_
  rw [hmember, hscore]
  -- The draw of the height is whatever the state says.
  intro s rest hs
  obtain ⟨added, sl, hr, hsl⟩ := h.insert (flips s.draws) ms.2 ms.1.1
  refine ⟨⟨sl, z.dict.insert ms.1.1 ms.2⟩, { s with draws := s.draws + 1 }, ?_,
    ⟨⟨s.draws, added, sl, hr, rfl⟩, hsl _⟩, hs⟩
  show (slInsert flips z.sl ms.2 ms.1.1 s >>= _) = _
  rw [slInsert_eq hr]
  rfl

/-- What is read as one. -/
theorem takes_zMember (flips : ℕ → ℕ → Bool) (z : ZSetValue) :
    Takes view (readZMember flips z) fun bs z' =>
      ∃ ms, bs = encodeScored ms ∧ AddScored flips ms z z' := by
  have hinsert : ∀ score member, Takes view (slInsert flips z.sl score member) fun bs sl =>
      bs = [] ∧ ∃ draw added,
        z.sl.insert (SkipList.randomLevel (flips draw)) score member = .ok (added, sl) := by
    intro score member s sl s' rest hr hs
    unfold slInsert at hr
    cases hi : z.sl.insert (SkipList.randomLevel (flips s.draws)) score member with
    | error f => rw [hi] at hr; cases hr
    | ok p =>
      rw [hi] at hr
      cases hr
      exact ⟨[], hs, rfl, s.draws, p.1, hi⟩
  refine takes_readBytes.bind fun member => takes_f64.bind fun score =>
    (hinsert score member).bind fun sl => Takes.pure ?_
  rintro ws ⟨rfl, draw, added, hr⟩ ys rfl xs ⟨t, rfl, rfl⟩
  exact ⟨(t, score), by simp [encodeScored], draw, added, sl, hr, rfl⟩

/-! ## Values -/

variable (flips : ℕ → ℕ → Bool)

/-- A collection is read: its size, and then its elements. -/
theorem safe_collection (hloop : ∀ n < 2^32, Safe InBounds Refusal (loop n) fun _ => True) :
    Safe InBounds Refusal (do let n ← read Reader.u32; let a ← loop n; pure (mk a))
      fun _ => True :=
  safe_u32.bind fun n hn => (hloop n hn).bind fun _ _ => Safe.pure trivial

/-- The payload of a value. -/
theorem safe_readValue (type : ℕ) : Safe InBounds Refusal (readValue flips type) fun _ => True := by
  unfold readValue
  split
  · exact safe_readBytes.bind fun _ _ => Safe.pure trivial
  · refine safe_collection fun n _ =>
      safe_readLoop (fun _ _ => True) (fun _ _ _ => ?_) n _ trivial
    exact safe_readBytes.bind fun _ _ => safe_readBytes.bind fun _ _ => Safe.pure trivial
  · exact safe_collection fun n _ => safe_readLoop (fun _ _ => True)
      (fun _ _ _ => safe_readBytes.bind fun _ _ => Safe.pure trivial) n _ trivial
  · exact safe_collection fun n _ => safe_readLoop (fun _ _ => True)
      (fun _ _ _ => safe_readBytes.bind fun _ _ => Safe.pure trivial) n _ trivial
  · exact safe_collection fun n hn =>
      safe_readLoop Room (fun _ _ h => safe_zMember flips h) n _ (room_empty hn)
  · exact Safe.intro fun _ _ => ⟨_, rfl⟩

/-- What a collection is loaded to. -/
theorem reads_collection {xs : Counted X} {Q : Value → Prop}
    (hloop : Reads view (loop xs.1.length) (xs.1.flatMap enc) P) (hQ : ∀ a, P a → Q (mk a)) :
    Reads view (do let n ← read Reader.u32; let a ← loop n; pure (mk a)) (encodeAll enc xs) Q := by
  refine (reads_u32 xs.2).bind fun n hn => ?_
  rw [hn]
  exact hloop.bind_last fun a ha => Reads.pure (hQ a ha)

/-- What is read as a collection. -/
theorem takes_collection {loop : ℕ → LoadM α} {mk : α → Value} {P : List X → α → Prop}
    (hloop : ∀ n, Takes view (loop n) fun bs a =>
      ∃ xs, xs.length = n ∧ bs = xs.flatMap enc ∧ P xs a) :
    Takes view (do let n ← read Reader.u32; let a ← loop n; pure (mk a)) fun bs v =>
      ∃ (xs : Counted X) (a : α), bs = encodeAll enc xs ∧ P xs.1 a ∧ v = mk a := by
  refine takes_u32.bind fun n => (hloop n).bind fun a => Takes.pure ?_
  rintro ys ⟨xs, hlen, rfl, hP⟩ ws ⟨rfl, hlt⟩
  exact ⟨⟨xs, hlen ▸ hlt⟩, a, by simp [encodeAll, hlen], hP, rfl⟩

/-- The elements of a list come out in their order. -/
theorem steps_concat {xs : List Text} {l : List Bytes} :
    Steps (fun (t : Text) (l l' : List Bytes) => l' = l ++ [t.1]) xs [] l ↔
      l = xs.map Subtype.val := by
  have hfold : ∀ (xs : List Text) (l : List Bytes),
      xs.foldl (fun l t => l ++ [t.1]) l = l ++ xs.map Subtype.val := by
    intro xs
    induction xs with
    | nil => exact fun l => (append_nil l).symm
    | cons t xs ih => exact fun l => by rw [foldl_cons, ih, append_assoc]; rfl
  rw [steps_eq_foldl (f := fun l (t : Text) => l ++ [t.1]), hfold, nil_append]

/-- A value. -/
theorem reads_value (p : Payload) :
    Reads view (readValue flips p.code) p.encode (LoadsValue flips p) := by
  cases p with
  | string s =>
    exact (reads_made Value.rawString s).imp fun _ hv => hv
  | hash fields =>
    refine reads_collection (reads_readLoop (fun _ _ => True) (fun n kv h _ =>
      (reads_field h kv).imp fun h' hh' => ⟨hh', trivial⟩) fields.1 ∅ trivial) fun h hh => ?_
    exact congrArg _ (steps_eq_foldl.1 hh)
  | list elements =>
    refine reads_collection (reads_readLoop (fun _ _ => True) (fun n t l _ =>
      (reads_element l t).imp fun l' hl' => ⟨hl', trivial⟩) elements.1 [] trivial) fun l hl => ?_
    exact congrArg _ (steps_concat.1 hl)
  | set members =>
    refine reads_collection (reads_readLoop (fun _ _ => True) (fun n t s _ =>
      (reads_member s t).imp fun s' hs' => ⟨hs', trivial⟩) members.1 ∅ trivial) fun s hs => ?_
    exact congrArg _ (steps_eq_foldl.1 hs)
  | zset members =>
    exact reads_collection (reads_readLoop Room (fun n ms z h => reads_zMember flips h ms)
      members.1 _ (room_empty members.2)) fun z hz => ⟨z, rfl, hz⟩

/-- What is read as a value. -/
theorem takes_readValue (type : ℕ) :
    Takes view (readValue flips type) fun bs v =>
      ∃ p : Payload, p.code = type ∧ bs = p.encode ∧ LoadsValue flips p v := by
  unfold readValue
  split
  · exact (takes_made Value.rawString).imp fun bs v ⟨t, hbs, hv⟩ => ⟨.string t, rfl, hbs, hv⟩
  · refine (takes_collection fun n => takes_readLoop takes_field n ∅).imp ?_
    rintro bs v ⟨xs, h, rfl, hh, rfl⟩
    exact ⟨.hash xs, rfl, rfl, congrArg _ (steps_eq_foldl.1 hh)⟩
  · refine (takes_collection fun n => takes_readLoop takes_element n []).imp ?_
    rintro bs v ⟨xs, l, rfl, hl, rfl⟩
    exact ⟨.list xs, rfl, rfl, congrArg _ (steps_concat.1 hl)⟩
  · refine (takes_collection fun n => takes_readLoop takes_member n ∅).imp ?_
    rintro bs v ⟨xs, s, rfl, hs, rfl⟩
    exact ⟨.set xs, rfl, rfl, congrArg _ (steps_eq_foldl.1 hs)⟩
  · refine (takes_collection fun n => takes_readLoop (takes_zMember flips) n _).imp ?_
    rintro bs v ⟨xs, z, rfl, hz, rfl⟩
    exact ⟨.zset xs, rfl, rfl, z, rfl, hz⟩
  · exact takes_refuse _

/-! ## Entries and tables -/

/-- `r.ok` says whether the reader has failed. -/
theorem triple_ok : Triple InBounds Refusal readerOk fun ok s => InBounds s ∧ ok = s.r.ok :=
  Triple.intro fun _ hs => ⟨hs, rfl⟩

/-- A reader that has not failed is in bounds. -/
theorem triple_good (hm : Triple InBounds Refusal m post) : Triple Good Refusal m post :=
  hm.imp (fun _ hs => hs.1) fun _ _ h => h

/-- The check of the reader after some reads: the code goes on with a reader that has not failed. -/
theorem triple_readerOk (msg : Bytes) (hm : Triple Good Refusal m post) :
    Triple InBounds Refusal (do if !(← readerOk) then refuse msg else m) post := by
  refine triple_ok.bind fun ok => Triple.intro fun s hs => ?_
  cases ok with
  | false => exact ⟨msg, rfl⟩
  | true => exact hm.outcome ⟨hs.1, hs.2.symm⟩

/-- One entry. -/
theorem safe_readEntry (i : DbIndex) (fresh : Database) :
    Safe Good Refusal (readEntry flips i fresh) fun _ => True := by
  refine Safe.of_triple (triple_good ?_)
  refine safe_u8.triple_bind fun type _ => safe_u32.triple_bind fun klen _ =>
    (safe_bytes klen).triple_bind fun key _ => safe_u64.triple_bind fun exp _ => ?_
  refine triple_readerOk _ (triple_good ?_)
  refine (safe_readValue flips type).triple_bind fun v _ => triple_readerOk _ ?_
  exact (Safe.pure trivial).triple

/-- It is put into the database. -/
theorem reads_entry (i : DbIndex) (fresh : Database) (item : Item) :
    Reads view (readEntry flips i fresh) item.encode (LoadsItem flips i item fresh) := by
  have hcode : item.payload.code < 2^8 := by
    cases item.payload <;> simp [Payload.code]
  refine (reads_u8 hcode).bind fun type htype => ?_
  unfold Text.encode
  rw [append_assoc]
  refine (reads_u32 item.key.2).bind fun klen hklen => ?_
  rw [hklen]
  refine (reads_take [] id rfl).bind fun key hk => ?_
  refine (reads_u64 _).bind fun exp hexp => ?_
  refine reads_readerOk.bind_nil fun ok hok => ?_
  rw [hok, if_neg (by decide), htype]
  refine (reads_value flips item.payload).bind_last fun v hv => ?_
  refine reads_readerOk.bind_nil fun ok hok => ?_
  rw [hok, if_neg (by decide)]
  refine Reads.pure ⟨v, hv, ?_⟩
  rw [hk, hexp, UInt64.ofNat_toNat]
  rfl

/-- Behind a check of the reader, it has not failed. -/
theorem takes_if_readerOk (msg : Bytes) (hm : Takes view m R) :
    Takes view (do if !(← readerOk) then refuse msg else m) R := by
  refine takes_readerOk.bind fun ok => ?_
  cases ok with
  | false => exact takes_refuse msg
  | true =>
    refine hm.imp fun bs a h xs hxs => ?_
    rw [hxs.1]
    exact h

/-- What is read as an entry. -/
theorem takes_readEntry (i : DbIndex) (fresh : Database) :
    Takes view (readEntry flips i fresh) fun bs db =>
      ∃ item : Item, bs = item.encode ∧ LoadsItem flips i item fresh db := by
  refine takes_u8.bind fun type => takes_u32.bind fun klen => takes_take.bind fun key =>
    takes_u64.bind fun exp => takes_if_readerOk _ ?_
  refine (takes_readValue flips type).bind fun v => takes_if_readerOk _ (Takes.pure ?_)
  rintro vs ⟨p, rfl, rfl, hv⟩ es rfl ks ⟨hlen, hkey⟩ ls ⟨rfl, hlt⟩ ts ⟨rfl, -⟩
  refine ⟨⟨⟨ks, hlen ▸ hlt⟩, UInt64.ofNat exp, p⟩, ?_, v, hv, ?_⟩
  · simp [Item.encode, Text.encode, hlen]
  · rw [hkey]
    rfl

/-- One table. -/
theorem safe_readTable (fresh : Database) :
    Safe Good Refusal (readTable flips fresh) fun _ => True := by
  refine Safe.of_triple (triple_good ?_)
  refine safe_u8.triple_bind fun idx _ => safe_u32.triple_bind fun count _ => ?_
  refine triple_ok.bind fun ok => Triple.intro fun s hs => ?_
  by_cases h : ok = true ∧ idx < kNumDatabases
  · rw [dif_pos h]
    exact (safe_readTimes (safe_readEntry flips ⟨idx, h.2⟩) count fresh).triple.outcome
      ⟨hs.1, hs.2 ▸ h.1⟩
  · rw [dif_neg h]
    exact ⟨_, rfl⟩

/-- Its entries are put in. -/
theorem reads_table (fresh : Database) (sec : Section) :
    Reads view (readTable flips fresh) sec.encode (LoadsSection flips sec fresh) := by
  have hi : (sec.idx : ℕ) < 2^8 := lt_trans sec.idx.isLt (by decide)
  refine (reads_u8 hi).bind fun idx hidx => ?_
  subst hidx
  refine (reads_u32 sec.items.2).bind fun count hcount => ?_
  refine reads_readerOk.bind_nil fun ok hok => ?_
  rw [dif_pos ⟨hok, sec.idx.isLt⟩, hcount]
  exact reads_readTimes (fun item db => reads_entry flips sec.idx db item) sec.items.1 fresh

/-- What is read as a table. -/
theorem takes_readTable (fresh : Database) :
    Takes view (readTable flips fresh) fun bs db =>
      ∃ sec : Section, bs = sec.encode ∧ LoadsSection flips sec fresh db := by
  refine takes_u8.bind fun idx => takes_u32.bind fun count => takes_readerOk.bind fun ok => ?_
  by_cases h : ok = true ∧ idx < kNumDatabases
  · rw [dif_pos h]
    refine (takes_readTimes (takes_readEntry flips ⟨idx, h.2⟩) count fresh).imp ?_
    rintro bs db ⟨items, hlen, rfl, hdb⟩ os ⟨rfl, -⟩ cs ⟨rfl, hlt⟩ is ⟨rfl, -⟩
    exact ⟨⟨⟨idx, h.2⟩, ⟨items, hlen ▸ hlt⟩⟩, by simp [Section.encode, encodeAll, hlen], hdb⟩
  · rw [dif_neg h]
    exact takes_refuse _

/-! ## Dumps -/

/-- A whole dump. -/
theorem safe_readDump : Safe Good Refusal (readDump flips) fun _ => True := by
  refine Safe.of_triple (triple_good ?_)
  refine safe_u8.triple_bind fun ndbs _ => triple_readerOk _ ?_
  exact (safe_readTimes (safe_readTable flips) ndbs .empty).triple

/-- It is loaded. -/
theorem reads_dump (dump : Dump) : Reads view (readDump flips) dump.encode (Loads flips dump) := by
  refine (reads_u8 dump.2).bind fun ndbs hndbs => ?_
  refine reads_readerOk.bind_nil fun ok hok => ?_
  rw [hok, if_neg (by decide), hndbs]
  exact reads_readTimes (fun sec db => reads_table flips db sec) dump.1 .empty

/-- What is loaded is a dump. -/
theorem takes_readDump :
    Takes view (readDump flips) fun bs db =>
      ∃ dump : Dump, bs = dump.encode ∧ Loads flips dump db := by
  refine takes_u8.bind fun ndbs => takes_if_readerOk _ ?_
  refine (takes_readTimes (takes_readTable flips) ndbs .empty).imp ?_
  rintro bs db ⟨secs, hlen, rfl, hdb⟩ xs ⟨rfl, hlt⟩
  exact ⟨⟨secs, hlen ▸ hlt⟩, by simp [Dump.encode, hlen], hdb⟩

end TinyRedis.Rdb

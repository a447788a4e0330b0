import Benos.Lib.Word
import Benos.Machine.Memory

/-!
`memset.c`: a head byte by byte up to an aligned address, blocks of sixteen bytes by an assembly
loop, and a tail byte by byte. On this target `size_t` is `unsigned int`.
-/

namespace Benos

/-- Physical memory byte by byte. -/
abbrev ByteMemory := U64 → BitVec 8

/-- `sd`, the lowest byte first. -/
def ByteMemory.sd (mem : ByteMemory) (val p : U64) : ByteMemory := fun addr =>
  if (addr - p).toNat < 8 then (val >>> (8 * (addr - p).toNat)).setWidth 8 else mem addr

/-- `__memset_1bytes`. -/
def memset1bytes (c : BitVec 32) : Nat → U64 → ByteMemory → ByteMemory
  | 0, _, mem => mem
  | count + 1, xs, mem => memset1bytes c count (xs + 1) (Function.update mem xs (c.setWidth 8))

/--
The loop of `__memset_16bytes_inline_asm` over its registers `p` and `i`, with the addresses of the
blocks that it stores.
-/
def memset16bytesFrom (val count : U64) : Nat → U64 → U64 → ByteMemory → Option (ByteMemory × List U64)
  | 0, _, _, _ => none
  | fuel + 1, p, i, mem =>
    let mem := (mem.sd val p).sd val (p + 8)
    -- `blt` stands behind the stores, so one block is stored in any case.
    if (i + 16).slt count then
      (memset16bytesFrom val count fuel (p + 16) (i + 16) mem).map fun (mem, blocks) =>
        (mem, p :: blocks)
    else some (mem, [p])

/-- `__memset_16bytes_inline_asm`. -/
def memset16bytes (fuel : Nat) (p val : U64) (count : BitVec 32) (mem : ByteMemory) :
    Option (ByteMemory × List U64) :=
  memset16bytesFrom val (count.signExtend 64) fuel p 0 mem

/-- The loop of `__memset` that repeats the byte. -/
def memsetData (c : BitVec 32) : U64 :=
  (List.range 8).foldl (fun data i => data ||| (c.signExtend 64 &&& 0xff) <<< (i * 8)) 0

/-- `__memset` from its second step on, at an address `p` that is aligned. -/
def memsetAligned (fuel : Nat) (p : U64) (c left : BitVec 32) (mem : ByteMemory) :
    Option (ByteMemory × List U64) :=
  let align : U64 := 16
  if align ≤ left.setWidth 64 then
    let n : BitVec 32 := (left.setWidth 64 / align).setWidth 32
    let left : BitVec 32 := (left.setWidth 64 % align).setWidth 32
    match memset16bytes fuel p (memsetData c) (16 * n) mem with
    | none => none
    | some (mem, blocks) =>
      -- The tail, if there is one.
      some (if left ≠ 0 then memset1bytes c left.toNat (p + (16 * n).signExtend 64) mem else mem,
        blocks)
  else some (memset1bytes c left.toNat p mem, [])

/-- `memset`, which is `__memset`: memory afterwards, the blocks, and the pointer it returns. -/
def memset (fuel : Nat) (s : U64) (c count : BitVec 32) (mem : ByteMemory) :
    Option ((ByteMemory × List U64) × U64) :=
  let align : U64 := 16
  let (mem, p, left) :=
    if s &&& (align - 1) ≠ 0 then
      -- As far as the next aligned address, but not beyond the end.
      let size : BitVec 32 := (s &&& (align - 1)).setWidth 32
      let size : BitVec 32 := (align - size.setWidth 64).setWidth 32
      let size := if count < size then count else size
      (memset1bytes c size.toNat s mem, s + size.setWidth 64, count - size)
    else (mem, s, count)
  (memsetAligned fuel p c left mem).map fun done => (done, s)

/-! ### Filling memory -/

/-- Memory with one byte at so many addresses from an address on. -/
def ByteMemory.fill (mem : ByteMemory) (byte : BitVec 8) (s : U64) (count : Nat) : ByteMemory :=
  fun addr => if (addr - s).toNat < count then byte else mem addr

/-- Two fillings one behind the other are one. -/
theorem ByteMemory.fill_fill (mem : ByteMemory) (byte : BitVec 8) (s : U64) {m n : Nat}
    (fits : m + n ≤ 2 ^ 64) :
    (mem.fill byte s m).fill byte (s + BitVec.ofNat 64 m) n = mem.fill byte s (m + n) := by
  funext addr
  -- An address is told by its distance from the first one.
  have apart : addr - (s + BitVec.ofNat 64 m) = addr - s - BitVec.ofNat 64 m := by bv_omega
  have distance := (addr - s).isLt
  rw [fill, fill, fill, apart, BitVec.toNat_sub, BitVec.toNat_ofNat]
  generalize (addr - s).toNat = d at *
  by_cases front : d < m
  · have both : d < m + n := by omega
    rw [if_pos both, if_pos front, ite_self]
  · have behind : (2 ^ 64 - m % 2 ^ 64 + d) % 2 ^ 64 = d - m := by omega
    rw [if_neg front, behind]
    by_cases inside : d - m < n
    · rw [if_pos inside, if_pos (show d < m + n by omega)]
    · rw [if_neg inside, if_neg (show ¬ d < m + n by omega)]

/-- The byte loop fills memory. -/
theorem memset1bytes_eq (c : BitVec 32) {count : Nat} (fits : count ≤ 2 ^ 64) (s : U64)
    (mem : ByteMemory) : memset1bytes c count s mem = mem.fill (c.setWidth 8) s count := by
  induction count generalizing s mem with
  | zero => rfl
  | succ count ih =>
    -- The first byte is a filling of one.
    have first : Function.update mem s (c.setWidth 8) = mem.fill (c.setWidth 8) s 1 := by
      funext addr
      rw [ByteMemory.fill, Function.update_apply]
      refine if_congr ?_ rfl rfl
      bv_omega
    rw [memset1bytes, ih (by omega), first]
    exact (mem.fill_fill _ s (by omega)).trans (by rw [Nat.add_comm])

/-- Every byte of the word that the blocks are filled with is the byte. -/
theorem memsetData_byte (c : BitVec 32) {j : Nat} (inside : j < 8) :
    (memsetData c >>> (8 * j)).setWidth 8 = c.setWidth 8 := by
  -- After some rounds the bytes that were reached are there, and the others are zero.
  have general (rounds : Nat) {b : Nat} (low : b < 8) :
      ((List.range rounds).foldl (fun data i => data ||| (c.signExtend 64 &&& 0xff) <<< (i * 8))
        (0 : U64)).getLsbD (8 * j + b) = (decide (j < rounds) && c.getLsbD b) := by
    induction rounds with
    | zero => simp
    | succ rounds ih =>
      have ones : (0xff : U64) = BitVec.ofNat 64 (2 ^ 8 - 1) := rfl
      have bit : 8 * j + b < 64 := by omega
      have added : ((c.signExtend 64 &&& 0xff : U64) <<< (rounds * 8)).getLsbD (8 * j + b) =
          (decide (j = rounds) && c.getLsbD b) := by
        rw [BitVec.getLsbD_shiftLeft, BitVec.getLsbD_and, ones, BitVec.getLsbD_ofNat,
          Nat.testBit_two_pow_sub_one]
        by_cases here : j = rounds
        · subst here
          have place : 8 * j + b - j * 8 = b := by omega
          have front : ¬ 8 * j + b < j * 8 := by omega
          have small : b < 32 := by omega
          have wide : b < 64 := by omega
          have kept : (c.signExtend 64).getLsbD b = c.getLsbD b := by
            rw [BitVec.getLsbD_signExtend, if_pos small, decide_eq_true wide, Bool.true_and]
          simp only [place, bit, front, wide, low, kept, decide_true, decide_false, Bool.not_false,
            Bool.true_and, Bool.and_true]
        · -- The byte is shifted past the place, or not as far.
          have outside : 8 * j + b < rounds * 8 ∨ ¬ 8 * j + b - rounds * 8 < 8 := by omega
          rcases outside with before | behind
          · simp [before, here]
          · simp [behind, here]
      have rest : (decide (j < rounds + 1)) = (decide (j < rounds) || decide (j = rounds)) := by
        rw [← Bool.decide_or]
        exact decide_eq_decide.mpr (by omega)
      rw [List.range_succ, List.foldl_append, List.foldl_cons, List.foldl_nil, BitVec.getLsbD_or,
        ih, added, rest, Bool.and_or_distrib_right]
  apply BitVec.eq_of_getLsbD_eq
  intro b low
  rw [BitVec.getLsbD_setWidth, BitVec.getLsbD_ushiftRight, memsetData, general 8 low,
    BitVec.getLsbD_setWidth, decide_eq_true inside, Bool.true_and]

/-- Storing a word of one byte fills eight addresses. -/
theorem ByteMemory.sd_fill (mem : ByteMemory) {val : U64} {byte : BitVec 8}
    (same : ∀ j < 8, (val >>> (8 * j)).setWidth 8 = byte) (p : U64) :
    mem.sd val p = mem.fill byte p 8 := by
  funext addr
  rw [sd, fill]
  -- Every byte of the word is the same one.
  by_cases inside : (addr - p).toNat < 8
  · rw [if_pos inside, if_pos inside, same _ inside]
  · rw [if_neg inside, if_neg inside]

/-! ### The loop over blocks -/

/-- Where the counter does not overflow, `blt` compares numbers. -/
theorem slt_counter {i count : U64} (inside : i.toNat + 16 ≤ count.toNat)
    (small : count.toNat < 2 ^ 31) : (i + 16).slt count = decide (i.toNat + 16 < count.toNat) := by
  -- As signed numbers both are what they are as unsigned ones.
  have next : (i + 16).toNat = i.toNat + 16 := by bv_omega
  have left : (i + 16).toInt = i.toNat + 16 := by
    rw [BitVec.toInt_eq_toNat_of_lt (by omega), next]
    rfl
  have right : count.toInt = count.toNat := BitVec.toInt_eq_toNat_of_lt (by omega)
  rw [BitVec.slt_eq_decide, left, right]
  exact decide_eq_decide.mpr (by omega)

/-- The loop fills its blocks, all of which are aligned as the first is. -/
theorem memset16bytesFrom_eq {val count : U64} {byte : BitVec 8}
    (same : ∀ j < 8, (val >>> (8 * j)).setWidth 8 = byte) {more : Nat} (small : count.toNat < 2 ^ 31)
    {fuel : Nat} (enough : more < fuel) {p i : U64} (aligned : 16 ∣ p.toNat)
    (left : i.toNat + 16 * (more + 1) = count.toNat) (mem : ByteMemory) :
    ∃ blocks, memset16bytesFrom val count fuel p i mem =
        some (mem.fill byte p (16 * (more + 1)), blocks) ∧ ∀ block ∈ blocks, 16 ∣ block.toNat := by
  have filled (mem : ByteMemory) (p : U64) : (mem.sd val p).sd val (p + 8) = mem.fill byte p 16 := by
    rw [ByteMemory.sd_fill _ same, ByteMemory.sd_fill _ same]
    exact mem.fill_fill byte p (by omega)
  -- Each round fills one block and goes on as long as the counter is below its end.
  induction more generalizing fuel p i mem with
  | zero =>
    obtain ⟨fuel, rfl⟩ := Nat.exists_eq_add_of_le' enough
    have done : ¬ (i + 16).slt count = true := by
      rw [slt_counter (by omega) small, decide_eq_true_iff]
      omega
    refine ⟨[p], ?_, fun block member => ?_⟩
    · rw [memset16bytesFrom, filled]
      exact if_neg done
    · rw [List.mem_singleton.mp member]
      exact aligned
  | succ more ih =>
    obtain ⟨fuel, rfl⟩ := Nat.exists_eq_add_of_le' (Nat.lt_of_le_of_lt (Nat.zero_le _) enough)
    have again : (i + 16).slt count = true := by
      rw [slt_counter (by omega) small, decide_eq_true_iff]
      omega
    have next : (i + 16).toNat = i.toNat + 16 := by bv_omega
    have onward : 16 ∣ (p + 16).toNat := by
      rw [BitVec.toNat_add]
      exact (Nat.dvd_mod_iff (by decide)).mpr (Nat.dvd_add aligned (by decide))
    have remaining : more < fuel := by omega
    obtain ⟨blocks, rest, all⟩ := ih remaining onward (i := i + 16) (by omega) (mem.fill byte p 16)
    refine ⟨p :: blocks, ?_, List.forall_mem_cons.mpr ⟨aligned, all⟩⟩
    have joined : (mem.fill byte p 16).fill byte (p + 16) (16 * (more + 1)) =
        mem.fill byte p (16 * (more + 1 + 1)) := by
      rw [show 16 * (more + 1 + 1) = 16 + 16 * (more + 1) by omega]
      exact mem.fill_fill byte p (by omega)
    rw [memset16bytesFrom, filled]
    dsimp only
    rw [if_pos again, rest, joined]
    rfl

/-- A count stays the same as an `unsigned long`. -/
theorem wide_toNat (left : BitVec 32) : (left.setWidth 64).toNat = left.toNat := by
  rw [BitVec.toNat_setWidth]
  omega

/-- The whole blocks, and what is left behind them, as numbers. -/
theorem blocks_toNat (left : BitVec 32) :
    ((left.setWidth 64 / (16 : U64)).setWidth 32 : BitVec 32).toNat = left.toNat / 16 ∧
      ((left.setWidth 64 % (16 : U64)).setWidth 32 : BitVec 32).toNat = left.toNat % 16 := by
  have sixteen : (16 : U64).toNat = 16 := rfl
  constructor
  · rw [BitVec.toNat_setWidth, BitVec.toNat_udiv, wide_toNat, sixteen]
    omega
  · rw [BitVec.toNat_setWidth, BitVec.toNat_umod, wide_toNat, sixteen]
    omega

/-- The bytes of the blocks are an `int`, and positive as long as they are below its range. -/
theorem blockBytes_toNat {n : BitVec 32} {blocks : Nat} (number : n.toNat = blocks)
    (small : 16 * blocks < 2 ^ 31) : ((16 * n).signExtend 64).toNat = 16 * blocks := by
  have product : (16 * n).toNat = 16 * blocks := by
    rw [BitVec.toNat_mul, number]
    exact Nat.mod_eq_of_lt (show 16 * blocks < 2 ^ 32 by omega)
  have positive : (16 * n).msb = false := by
    rw [BitVec.msb_eq_decide, product]
    exact decide_eq_false (by omega)
  rw [BitVec.toNat_signExtend, BitVec.toNat_setWidth, product, positive]
  exact Nat.mod_eq_of_lt (show 16 * blocks < 2 ^ 64 by omega)

/-- From an aligned address on memory is filled, whether in blocks or byte by byte. -/
theorem memsetAligned_eq (c : BitVec 32) {left : BitVec 32} (small : left.toNat < 2 ^ 31) {p : U64}
    (aligned : left.toNat < 16 ∨ 16 ∣ p.toNat) {fuel : Nat} (enough : left.toNat / 16 ≤ fuel)
    (mem : ByteMemory) :
    ∃ blocks, memsetAligned fuel p c left mem =
        some (mem.fill (c.setWidth 8) p left.toNat, blocks) ∧ ∀ block ∈ blocks, 16 ∣ block.toNat := by
  rw [memsetAligned]
  dsimp only
  by_cases long : (16 : U64) ≤ left.setWidth 64
  · have many : 16 ≤ left.toNat := by
      rw [← wide_toNat left]
      exact long
    rw [if_pos long]
    obtain ⟨n, rest⟩ := blocks_toNat left
    generalize ((left.setWidth 64 / (16 : U64)).setWidth 32 : BitVec 32) = n' at *
    generalize ((left.setWidth 64 % (16 : U64)).setWidth 32 : BitVec 32) = rest' at *
    have bytes := blockBytes_toNat n (by omega)
    have counted : (0 : U64).toNat + 16 * (left.toNat / 16 - 1 + 1) =
        ((16 * n').signExtend 64).toNat := by
      rw [bytes]
      show 0 + _ = _
      omega
    obtain ⟨blocks, filled, all⟩ := memset16bytesFrom_eq (fun j inside => memsetData_byte c inside)
      (by omega) (show left.toNat / 16 - 1 < fuel by omega) (aligned.resolve_left (by omega)) counted
      mem
    rw [memset16bytes, filled]
    refine ⟨blocks, ?_, all⟩
    -- The tail is filled behind the blocks, if there is one.
    have place : (16 * n').signExtend 64 = BitVec.ofNat 64 (16 * (left.toNat / 16 - 1 + 1)) := by
      apply BitVec.eq_of_toNat_eq
      rw [bytes, BitVec.toNat_ofNat]
      omega
    have total : 16 * (left.toNat / 16 - 1 + 1) + left.toNat % 16 = left.toNat := by omega
    have joined := mem.fill_fill (c.setWidth 8) p
      (show 16 * (left.toNat / 16 - 1 + 1) + left.toNat % 16 ≤ 2 ^ 64 by omega)
    rw [total] at joined
    dsimp only
    by_cases more : rest' ≠ 0
    · rw [if_pos more, memset1bytes_eq c (by omega), rest, place, joined]
    · have none : left.toNat % 16 = 0 := by
        rw [← rest, not_not.mp more]
        rfl
      rw [if_neg more, ← joined, none]
      congr 2
  · -- With less than a block there is only the byte loop.
    have few : left.toNat < 16 := by
      rw [← wide_toNat left]
      exact BitVec.not_le.mp long
    rw [if_neg long, memset1bytes_eq c (by omega)]
    exact ⟨[], rfl, fun _ member => absurd member List.not_mem_nil⟩

/-- How far the next aligned address is from one that is not aligned. -/
theorem head_gap {s : U64} (offset : (s &&& ((16 : U64) - 1)).toNat = s.toNat % 16) :
    (((16 : U64) - ((s &&& ((16 : U64) - 1)).setWidth 32 : BitVec 32).setWidth 64).setWidth 32 :
      BitVec 32).toNat = 16 - s.toNat % 16 := by
  have sixteen : (16 : U64).toNat = 16 := rfl
  rw [BitVec.toNat_setWidth, BitVec.toNat_sub, BitVec.toNat_setWidth, BitVec.toNat_setWidth, offset,
    sixteen]
  omega

/-- Behind a head of bytes that ends at an aligned address, or ends everything, the rest is filled. -/
theorem memsetAligned_behind {s : U64} (c : BitVec 32) {count size : BitVec 32}
    (small : count.toNat < 2 ^ 31) (head : size.toNat = min count.toNat (16 - s.toNat % 16))
    {fuel : Nat} (enough : count.toNat / 16 ≤ fuel) (mem : ByteMemory) :
    ∃ blocks, memsetAligned fuel (s + size.setWidth 64) c (count - size)
        (memset1bytes c size.toNat s mem) =
          some (mem.fill (c.setWidth 8) s count.toNat, blocks) ∧
      ∀ block ∈ blocks, 16 ∣ block.toNat := by
  have left : (count - size).toNat = count.toNat - size.toNat := by
    rw [BitVec.toNat_sub]
    omega
  have behind : size.setWidth 64 = BitVec.ofNat 64 size.toNat := by
    apply BitVec.eq_of_toNat_eq
    rw [BitVec.toNat_setWidth, BitVec.toNat_ofNat]
  -- A head that is not everything ends where the address is a multiple of sixteen.
  have aligned : (count - size).toNat < 16 ∨ 16 ∣ (s + size.setWidth 64).toNat := by
    rw [left, BitVec.toNat_add, behind, BitVec.toNat_ofNat]
    omega
  have rounds : (count - size).toNat / 16 ≤ fuel := by omega
  obtain ⟨blocks, rest, all⟩ := memsetAligned_eq c (by omega) aligned rounds
    (memset1bytes c size.toNat s mem)
  have joined := mem.fill_fill (c.setWidth 8) s
    (show size.toNat + (count - size).toNat ≤ 2 ^ 64 by omega)
  have total : size.toNat + (count - size).toNat = count.toNat := by omega
  rw [rest, memset1bytes_eq c (by omega), behind, joined, total]
  exact ⟨blocks, rfl, all⟩

/-- `memset` fills its bytes, and every block that the assembly loop stores is aligned. -/
theorem memset_fill (s : U64) (c : BitVec 32) {count : BitVec 32} (small : count.toNat < 2 ^ 31)
    {fuel : Nat} (enough : count.toNat / 16 ≤ fuel) (mem : ByteMemory) :
    ∃ blocks, memset fuel s c count mem =
        some ((mem.fill (c.setWidth 8) s count.toNat, blocks), s) ∧
      ∀ block ∈ blocks, 16 ∣ block.toNat := by
  have offset : (s &&& ((16 : U64) - 1)).toNat = s.toNat % 16 := Word.and_low_toNat s 4 (by omega)
  rw [memset]
  dsimp only
  by_cases unaligned : s &&& ((16 : U64) - 1) ≠ 0
  · have gap := head_gap offset
    rw [if_pos unaligned]
    dsimp only
    generalize (((16 : U64) - ((s &&& ((16 : U64) - 1)).setWidth 32 : BitVec 32).setWidth 64).setWidth
      32 : BitVec 32) = gap' at *
    -- The head ends at an aligned address, or with the bytes that are asked for.
    have head : (if count < gap' then count else gap').toNat =
        min count.toNat (16 - s.toNat % 16) := by
      split
      · have less : count.toNat < gap'.toNat := ‹count < gap'›
        omega
      · have more : gap'.toNat ≤ count.toNat := BitVec.not_lt.mp ‹¬ count < gap'›
        omega
    obtain ⟨blocks, rest, all⟩ := memsetAligned_behind c small head enough mem
    rw [rest]
    exact ⟨blocks, rfl, all⟩
  · have aligned : 16 ∣ s.toNat := by
      rw [not_not] at unaligned
      rw [unaligned] at offset
      exact Nat.dvd_of_mod_eq_zero offset.symm
    obtain ⟨blocks, rest, all⟩ := memsetAligned_eq c small (Or.inr aligned) enough mem
    rw [if_neg unaligned]
    dsimp only
    rw [rest]
    exact ⟨blocks, rfl, all⟩

/--
`memset` does what the byte loop does: it fills its bytes and no other, and returns its pointer.
Every block that the assembly loop stores is aligned.
-/
theorem memset_eq (s : U64) (c : BitVec 32) {count : BitVec 32} (small : count.toNat < 2 ^ 31)
    (inside : s.toNat + count.toNat ≤ 2 ^ 64) {fuel : Nat} (enough : count.toNat / 16 ≤ fuel)
    (mem : ByteMemory) :
    ∃ blocks, memset fuel s c count mem = some ((memset1bytes c count.toNat s mem, blocks), s) ∧
      (∀ block ∈ blocks, 16 ∣ block.toNat) ∧
      ∀ addr, memset1bytes c count.toNat s mem addr =
        if s.toNat ≤ addr.toNat ∧ addr.toNat < s.toNat + count.toNat then c.setWidth 8
        else mem addr := by
  have filled := memset1bytes_eq c (show count.toNat ≤ 2 ^ 64 by omega) s mem
  obtain ⟨blocks, done, all⟩ := memset_fill s c small enough mem
  rw [← filled] at done
  refine ⟨blocks, done, all, fun addr => ?_⟩
  rw [filled, ByteMemory.fill]
  refine if_congr ?_ rfl rfl
  -- As the bytes do not wrap around, the distance from the first one tells which are meant.
  rw [BitVec.toNat_sub]
  omega

/-- A structure of 296 bytes that begins in the middle of a block. -/
theorem memset_eq_frame :
    ∃ blocks, memset 18 0x80300ed8 0 296 (fun _ => 0xff) =
        some ((memset1bytes 0 296 0x80300ed8 fun _ => 0xff, blocks), 0x80300ed8) ∧
      (∀ block ∈ blocks, 16 ∣ block.toNat) ∧
      ∀ addr : U64, memset1bytes 0 296 0x80300ed8 (fun _ => 0xff) addr =
        if 0x80300ed8 ≤ addr.toNat ∧ addr.toNat < 0x80300ed8 + 296 then (0 : BitVec 32).setWidth 8
        else 0xff :=
  memset_eq 0x80300ed8 0 (by decide) (by decide) (by decide) fun _ => 0xff

end Benos

import Mathlib.Data.List.Basic
import Mathlib.Logic.Function.Basic
import Mathlib.Tactic.Common

/-! The log of `printk.c`: messages kept until there is a console, then what the console gets. -/

namespace Benos

/-- A byte of text, a `char` of the source. -/
abbrev Char8 := BitVec 8

/-- The terminating character, which is also what an unwritten `.bss` buffer holds. -/
def nul : Char8 := 0

/-- `CONSOLE_PRINT_BUFFER_SIZE`, which is the size of `print_buf`. -/
def consolePrintBufferSize : Nat := 1024

/-- `LOG_BUF_LEN`. -/
def logBufLen : Nat := 1 <<< 17

/-- `printk_status`. -/
inductive PrintkStatus where
  | down
  | ready
  deriving DecidableEq

/-- The static variables of `printk.c`, and what `putchar_fn` was called on. -/
structure Printk where
  status : PrintkStatus
  logBuf : Nat → Char8
  /-- `g_record`, as an offset in `log_buf`. -/
  record : Nat
  recordLen : Nat
  sent : List Char8

namespace Printk

/-- The variables as the kernel starts. -/
def boot : Printk :=
  { status := .down, logBuf := fun _ => nul, record := 0, recordLen := 0, sent := [] }

/-- `memcpy` of a text to an offset of a buffer. -/
def memcpy (buf : Nat → Char8) : Nat → List Char8 → Nat → Char8
  | _, [] => buf
  | dest, c :: rest => memcpy (Function.update buf dest c) (dest + 1) rest

/-- The loop of `printk` over the characters of `print_buf` from an index on. -/
def putAll : Nat → List Char8 → List Char8
  | _, [] => []
  | i, c :: rest => c :: if consolePrintBufferSize < i then [] else putAll (i + 1) rest

/-- `printk`, given the text that `myprintf` has formatted. -/
def printk (text : List Char8) (p : Printk) : Printk :=
  match p.status with
  | .down =>
    { p with
      logBuf := memcpy p.logBuf p.record text
      record := text.length
      recordLen := p.recordLen + text.length }
  | .ready => { p with sent := p.sent ++ putAll 0 text }

/-- `init_printk_done`. -/
def initPrintkDone (p : Printk) : Printk :=
  { p with
    status := .ready
    sent := p.sent ++ (List.range p.recordLen).map p.logBuf
    record := 0
    recordLen := 0 }

/-- Messages printed one after the other. -/
def printks (messages : List (List Char8)) (p : Printk) : Printk :=
  messages.foldl (fun p text => p.printk text) p

@[simp] theorem printks_nil (p : Printk) : p.printks [] = p := rfl

@[simp] theorem printks_cons (text : List Char8) (rest : List (List Char8)) (p : Printk) :
    p.printks (text :: rest) = (p.printk text).printks rest := rfl

/-! ### Where early messages land -/

/-- The last of some messages that was written over a place, and the character it put there. -/
def landed : Nat → List (List Char8) → Nat → Option Char8
  | _, [], _ => none
  | start, text :: rest, place =>
    (landed text.length rest place).or (if start ≤ place then text[place - start]? else none)

/-- A copied text is read back where it was copied to, and the rest of the buffer is kept. -/
theorem memcpy_apply (buf : Nat → Char8) (dest : Nat) (text : List Char8) (place : Nat) :
    memcpy buf dest text place =
      (if dest ≤ place then text[place - dest]? else none).getD (buf place) := by
  induction text generalizing buf dest with
  | nil => simp [memcpy]
  | cons c rest ih =>
    rw [memcpy, ih]
    rcases Nat.lt_trichotomy place dest with before | rfl | behind
    · -- Below the destination neither the character nor the rest is written.
      rw [if_neg (by omega), if_neg (by omega)]
      exact Function.update_of_ne (by omega) _ _
    · rw [if_neg (by omega), if_pos (Nat.le_refl _), Nat.sub_self]
      exact Function.update_self _ _ _
    · have next : place - dest = place - (dest + 1) + 1 := by omega
      rw [if_pos (by omega), if_pos (by omega), next, List.getElem?_cons_succ,
        Function.update_of_ne (by omega)]

/-- What a console that is not there yet has been told. -/
theorem printks_down (messages : List (List Char8)) (p : Printk) (down : p.status = .down) :
    (p.printks messages).status = .down ∧ (p.printks messages).sent = p.sent ∧
      (p.printks messages).recordLen = p.recordLen + messages.flatten.length ∧
      ∀ place, (p.printks messages).logBuf place =
        (landed p.record messages place).getD (p.logBuf place) := by
  induction messages generalizing p with
  | nil => exact ⟨down, rfl, rfl, fun _ => rfl⟩
  | cons text rest ih =>
    -- Each message goes where the length of the one before it says.
    have printed : p.printk text = { p with
        logBuf := memcpy p.logBuf p.record text
        record := text.length
        recordLen := p.recordLen + text.length } := by
      rw [printk, down]
    obtain ⟨status, sent, recordLen, logBuf⟩ := ih (p.printk text) (by rw [printed]; exact down)
    rw [printks_cons, printed] at *
    refine ⟨status, sent, ?_, ?_⟩
    · rw [List.flatten_cons, List.length_append, ← Nat.add_assoc]
      exact recordLen
    · intro place
      refine (logBuf place).trans ?_
      show (landed text.length rest place).getD (memcpy p.logBuf p.record text place) = _
      rw [memcpy_apply, landed]
      -- A later message over the place wins.
      cases landed text.length rest place <;> rfl

/-- What the console is told when it comes up. -/
theorem initPrintkDone_sent (messages : List (List Char8)) :
    (boot.printks messages).initPrintkDone.sent =
      (List.range messages.flatten.length).map fun place => (landed 0 messages place).getD nul := by
  obtain ⟨-, sent, recordLen, logBuf⟩ := printks_down messages boot rfl
  rw [initPrintkDone]
  simp only [sent, recordLen]
  rw [show boot.recordLen = 0 from rfl, Nat.zero_add, show boot.sent = [] from rfl, List.nil_append]
  exact List.map_congr_left fun place _ => logBuf place

/-- A text is what a range of places holds when each holds the character that belongs there. -/
theorem map_range_eq_iff (text : List Char8) (held : Nat → Char8) :
    (List.range text.length).map held = text ↔
      ∀ place < text.length, text[place]? = some (held place) := by
  -- Both sides say it character by character.
  constructor
  · intro equal place within
    have there := congrArg (fun chars => chars[place]?) equal
    simp only [List.getElem?_map, List.getElem?_range within, Option.map_some] at there
    exact there.symm
  · intro holds
    refine List.ext_getElem? fun place => ?_
    rcases Nat.lt_or_ge place text.length with within | past
    · rw [List.getElem?_map, List.getElem?_range within, holds place within, Option.map_some]
    · rw [List.getElem?_eq_none past, List.getElem?_eq_none (by simpa using past)]

/-! ### When nothing is lost -/

/-- No message that is not empty comes two or more places behind another one. -/
def SideBySide : List (List Char8) → Prop
  | [] => True
  | text :: rest => if text = [] then SideBySide rest else ∀ later ∈ rest.drop 1, later = []

instance decidableSideBySide : (messages : List (List Char8)) → Decidable (SideBySide messages)
  | [] => inferInstanceAs (Decidable True)
  | text :: rest =>
    have := decidableSideBySide rest
    inferInstanceAs (Decidable (if text = [] then SideBySide rest else _))

/-- Every place of the text holds the character that belongs there, as the messages landed. -/
def Coincides (messages : List (List Char8)) : Prop :=
  ∀ place < messages.flatten.length,
    messages.flatten[place]? = some ((landed 0 messages place).getD nul)

/-- Empty messages land nowhere. -/
theorem landed_empty {messages : List (List Char8)} (empty : ∀ text ∈ messages, text = [])
    (start place : Nat) : landed start messages place = none := by
  -- Empty messages write nothing and move nothing.
  induction messages generalizing start with
  | nil => rfl
  | cons text rest ih =>
    obtain rfl := empty text List.mem_cons_self
    rw [landed, ih fun later member => empty later (List.mem_cons_of_mem _ member)]
    simp

/-- Messages side by side land where they belong. -/
theorem SideBySide.coincides {messages : List (List Char8)} (apart : SideBySide messages) :
    Coincides messages := by
  induction messages with
  | nil => exact fun place within => absurd within (Nat.not_lt_zero place)
  | cons text rest ih =>
    rw [SideBySide] at apart
    by_cases empty : text = []
    · -- An empty message leaves the next one at the start of the buffer.
      rw [if_pos empty] at apart
      subst empty
      intro place within
      rw [List.flatten_cons, List.nil_append] at within ⊢
      rw [ih apart place within, landed]
      simp
    · rw [if_neg empty] at apart
      intro place within
      cases rest with
      | nil =>
        have inside : place < text.length := by simpa using within
        simp [landed, List.getElem?_eq_getElem inside]
      | cons second later =>
        -- The second message begins where the first ends, and the others are empty.
        have none_later : landed second.length later place = none := landed_empty apart _ _
        have flat : later.flatten = [] := List.flatten_eq_nil_iff.mpr apart
        rw [List.flatten_cons, List.flatten_cons, flat, List.append_nil] at within ⊢
        rw [List.length_append] at within
        simp only [landed, none_later, Option.none_or]
        -- A place is in the first message, or in the second.
        rcases Nat.lt_or_ge place text.length with first | behind
        · rw [List.getElem?_append_left first, if_neg (by omega), if_pos (Nat.zero_le _),
            Nat.sub_zero, List.getElem?_eq_getElem first]
          rfl
        · have inside : place - text.length < second.length := by omega
          rw [List.getElem?_append_right behind, if_pos behind, List.getElem?_eq_getElem inside]
          rfl

/-- The place behind which no message of a list reaches. -/
def reach : Nat → List (List Char8) → Nat
  | _, [] => 0
  | start, text :: rest => max (start + text.length) (reach text.length rest)

/-- Nothing lands at or behind that place. -/
theorem landed_reach {start place : Nat} {messages : List (List Char8)}
    (behind : reach start messages ≤ place) : landed start messages place = none := by
  -- No message writes behind the reach of all of them.
  induction messages generalizing start with
  | nil => rfl
  | cons text rest ih =>
    rw [reach] at behind
    rw [landed, ih (by omega), Option.none_or]
    split
    · exact List.getElem?_eq_none (by omega)
    · rfl

/-- They reach no further than the first message, or than the text as a whole is long. -/
theorem reach_le (start : Nat) (text : List Char8) (rest : List (List Char8)) :
    reach start (text :: rest) ≤ max (start + text.length) (text :: rest).flatten.length := by
  induction rest generalizing start text with
  | nil => simp [reach]
  | cons second later ih =>
    -- The second message begins where the first one is long, so within the text so far.
    have := ih text.length second
    rw [reach]
    simp only [List.flatten_cons, List.length_append] at this ⊢
    omega

/-- Messages that together are no longer than the first of them are empty but for it. -/
theorem rest_empty {text : List Char8} {rest : List (List Char8)}
    (short : (text :: rest).flatten.length ≤ text.length) : ∀ later ∈ rest, later = [] := by
  rw [List.flatten_cons, List.length_append] at short
  have flat : rest.flatten = [] := List.eq_nil_of_length_eq_zero (by omega)
  exact List.flatten_eq_nil_iff.mp flat

/-- Messages that reach as far as their text is long are side by side. -/
theorem sideBySide_of_reach {messages : List (List Char8)}
    (reached : messages.flatten.length ≤ reach 0 messages) : SideBySide messages := by
  induction messages with
  | nil => trivial
  | cons text rest ih =>
    rw [SideBySide]
    split
    case isTrue empty =>
      subst empty
      exact ih (by simpa [reach] using reached)
    case isFalse full =>
      have long : 0 < text.length := List.length_pos_iff.mpr full
      cases rest with
      | nil => exact fun _ member => by cases member
      | cons second later =>
        -- Whichever message reaches the end of the text, no third one is left anything to hold.
        have further := reach_le text.length second later
        rw [reach] at reached
        -- So the messages behind the second one have no characters.
        have short : (second :: later).flatten.length ≤ second.length := by
          simp only [List.flatten_cons, List.length_append] at reached further ⊢
          omega
        exact rest_empty short

/-- A text that lands where it belongs reaches its own end, unless the end is a terminator. -/
theorem Coincides.sideBySide {messages : List (List Char8)} (coincides : Coincides messages)
    (printable : ∀ text ∈ messages, nul ∉ text) : SideBySide messages := by
  apply sideBySide_of_reach
  by_contra short
  -- Nothing landed on the last place, which a terminator would have to fill.
  have last : messages.flatten.length - 1 < messages.flatten.length := by omega
  have held := coincides _ last
  rw [landed_reach (by omega)] at held
  have member : nul ∈ messages.flatten := List.mem_of_getElem? held
  obtain ⟨text, among, inside⟩ := List.mem_flatten.mp member
  exact printable text among inside

/-! ### The log as a whole -/

/-- Printing stays within `print_buf`, whose last character is the terminator. -/
def Fits (text : List Char8) : Prop := text.length < consolePrintBufferSize

/-- A text that fits `print_buf` is put out whole. -/
theorem putAll_fits {i : Nat} {text : List Char8} (fits : i + text.length ≤ consolePrintBufferSize) :
    putAll i text = text := by
  induction text generalizing i with
  | nil => rfl
  | cons c rest ih =>
    rw [List.length_cons] at fits
    rw [putAll, if_neg (by omega), ih (by omega)]

/-- Messages printed on a console that is there come out one after the other. -/
theorem printks_ready (messages : List (List Char8)) (p : Printk) (ready : p.status = .ready)
    (fit : ∀ text ∈ messages, Fits text) :
    (p.printks messages).sent = p.sent ++ messages.flatten := by
  induction messages generalizing p with
  | nil => simp
  | cons text rest ih =>
    -- The buffer of one message holds it as a whole.
    have whole : putAll 0 text = text := by
      apply putAll_fits
      have := fit text List.mem_cons_self
      unfold Fits at this
      omega
    -- With a hook the message goes out at once.
    have printed : p.printk text = { p with sent := p.sent ++ text } := by
      rw [printk, ready, whole]
    have later := ih (p.printk text) (by rw [printed]; exact ready)
      fun later member => fit later (List.mem_cons_of_mem _ member)
    rw [printks_cons, later, printed, List.flatten_cons, List.append_assoc]

/-- The console gets the early messages in order, and each later one directly after them. -/
def NothingLost (early : List (List Char8)) : Prop :=
  ∀ later, (∀ text ∈ later, Fits text) →
    (((boot.printks early).initPrintkDone).printks later).sent = early.flatten ++ later.flatten

/-- Once the hook is there a message is sent as it comes; only the early ones can be lost. -/
theorem nothingLost_iff_coincides (early : List (List Char8)) :
    NothingLost early ↔ Coincides early := by
  have told := initPrintkDone_sent early
  constructor
  · intro nothing_lost
    have all := nothing_lost [] (by simp)
    rw [printks_nil, List.flatten_nil, List.append_nil, told] at all
    exact (map_range_eq_iff _ _).mp all
  · intro coincides later fit
    rw [printks_ready later _ rfl fit, told]
    exact congrArg (· ++ later.flatten) ((map_range_eq_iff _ _).mpr coincides)

/--
Early messages that land side by side in the log reach the console, and of messages without a
terminator among their characters no others do.

A message with a terminator in it may also be read from the zeroed buffer by accident.
-/
theorem nothingLost_iff (early : List (List Char8)) :
    (SideBySide early → NothingLost early) ∧
    ((∀ text ∈ early, nul ∉ text) → (NothingLost early ↔ SideBySide early)) ∧
    (NothingLost early ↔
      SideBySide early ∨ ((∃ text ∈ early, nul ∈ text) ∧ Coincides early)) := by
  have enough : SideBySide early → NothingLost early := fun apart =>
    (nothingLost_iff_coincides early).mpr apart.coincides
  -- Without a NUL in a message, the buffer can hold the right characters only side by side.
  have needed (printable : ∀ text ∈ early, nul ∉ text) : NothingLost early → SideBySide early :=
    fun kept => ((nothingLost_iff_coincides early).mp kept).sideBySide printable
  refine ⟨enough, fun printable => ⟨needed printable, enough⟩, ?_, ?_⟩
  · intro kept
    by_cases terminated : ∃ text ∈ early, nul ∈ text
    · exact .inr ⟨terminated, (nothingLost_iff_coincides early).mp kept⟩
    · refine .inl (needed (fun text among inside => ?_) kept)
      exact terminated ⟨text, among, inside⟩
  · rintro (apart | ⟨-, coincides⟩)
    · exact enough apart
    · exact (nothingLost_iff_coincides early).mpr coincides

/-- Three messages of one character each: the third is written over the second. -/
theorem early_message_lost :
    ¬ ∀ early, (∀ text ∈ early, Fits text) → early.flatten.length ≤ logBufLen → NothingLost early := by
  intro kept
  have told := kept [[97], [98], [99]] (by unfold Fits; decide) (by decide) [] (by simp)
  -- The console is told the first and the third character, and one that was never written.
  have lost : (boot.printks [[97], [98], [99]]).initPrintkDone.sent = [97, 99, nul] := by decide
  rw [printks_nil, lost] at told
  revert told
  decide

end Printk

end Benos

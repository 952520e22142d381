import Mathlib.Data.List.Basic
import NodePipeline.Build.Description

/-!
# Indented strings read back

The rules by which an indented string is read, and what they make of an escaped text.
Escaping looks at pairs of ticks and at opened interpolations apart from each other.
A tick that is left over before an interpolation joins the two ticks that are to
escape it, and the interpolation opens; any other text reads as it was.
-/

namespace NodePipeline.Indented

/-- How the reading of a string comes to its end. -/
inductive Stop
  /-- There is nothing more to read. -/
  | exhausted
  /-- The string ends, and the rest is behind it. -/
  | ended (rest : List Char)
  | interpolation (rest : List Char)
deriving DecidableEq

structure Reading where
  text : List Char
  stop : Stop
deriving DecidableEq

/-- What was read first, and then the rest. -/
def Reading.after (text : List Char) (r : Reading) : Reading := ⟨text ++ r.text, r.stop⟩

variable (escaped : Char → Char)

/-- Reads an indented string. Two ticks and a backslash stand for an escaped character. -/
def read : List Char → Reading
  | [] => ⟨[], .exhausted⟩
  | '\x27' :: '\x27' :: '\x27' :: rest => (read rest).after [tick, tick]
  | '\x27' :: '\x27' :: '$' :: rest => (read rest).after ['$']
  | '\x27' :: '\x27' :: '\\' :: c :: rest => (read rest).after [escaped c]
  | '\x27' :: '\x27' :: rest => ⟨[], .ended rest⟩
  | '$' :: '\x7b' :: rest => ⟨[], .interpolation rest⟩
  | '$' :: '$' :: rest => (read rest).after ['$', '$']
  | c :: rest => (read rest).after [c]

/-! ## One rule at a time -/

section Rules

variable {rest : List Char}

theorem read_nil : read escaped [] = ⟨[], .exhausted⟩ :=
  rfl

theorem read_three_ticks :
    read escaped (tick :: tick :: tick :: rest) = (read escaped rest).after [tick, tick] :=
  rfl

theorem read_escaped_dollar :
    read escaped (tick :: tick :: '$' :: rest) = (read escaped rest).after ['$'] :=
  rfl

theorem read_interpolation :
    read escaped ('$' :: '\x7b' :: rest) = ⟨[], .interpolation rest⟩ :=
  rfl

theorem read_two_dollars :
    read escaped ('$' :: '$' :: rest) = (read escaped rest).after ['$', '$'] :=
  rfl

/-- A character reads as it is where no rule takes it together with the next one. -/
theorem read_cons {c : Char} (hticks : ¬ (c = tick ∧ rest.head? = some tick))
    (hbrace : ¬ (c = '$' ∧ rest.head? = some '\x7b'))
    (hdollar : ¬ (c = '$' ∧ rest.head? = some '$')) :
    read escaped (c :: rest) = (read escaped rest).after [c] := by
  rw [read]
  all_goals
    intros
    simp_all [tick]

theorem read_tick (h : rest.head? ≠ some tick) :
    read escaped (tick :: rest) = (read escaped rest).after [tick] :=
  read_cons escaped (fun hc => h hc.2) (fun hc => absurd hc.1 (by decide))
    fun hc => absurd hc.1 (by decide)

theorem read_dollar (h : rest.head? ≠ some '\x7b') (h' : rest.head? ≠ some '$') :
    read escaped ('$' :: rest) = (read escaped rest).after ['$'] :=
  read_cons escaped (fun hc => absurd hc.1 (by decide)) (fun hc => h hc.2) fun hc => h' hc.2

theorem read_plain {c : Char} (htick : c ≠ tick) (hdollar : c ≠ '$') :
    read escaped (c :: rest) = (read escaped rest).after [c] :=
  read_cons escaped (fun hc => htick hc.1) (fun hc => hdollar hc.1) fun hc => hdollar hc.1

end Rules

@[simp] theorem Reading.after_after (r : Reading) (xs ys : List Char) :
    (r.after ys).after xs = r.after (xs ++ ys) := by
  simp [Reading.after]

/-! ## What escaping writes -/

/-- The spelling of a text, as characters. -/
def escape (t : List Char) : List Char := escapeDollars (escapeTicks t)

theorem toList_escapeIndented (t : String) : (escapeIndented t).toList = escape t.toList := by
  rw [escapeIndented, String.toList_ofList]
  rfl

variable {c : Char} {rest : List Char}

theorem escapeTicks_cons (h : ¬ (c = tick ∧ rest.head? = some tick)) :
    escapeTicks (c :: rest) = c :: escapeTicks rest := by
  cases rest with
  | nil => rfl
  | cons d rest =>
      rw [escapeTicks, if_neg]
      rintro ⟨rfl, rfl⟩
      exact h ⟨rfl, rfl⟩

theorem escapeDollars_cons (h : ¬ (c = '$' ∧ rest.head? = some '\x7b')) :
    escapeDollars (c :: rest) = c :: escapeDollars rest := by
  cases rest with
  | nil => rfl
  | cons d rest =>
      rw [escapeDollars, if_neg]
      rintro ⟨rfl, rfl⟩
      exact h ⟨rfl, rfl⟩

theorem head?_escapeTicks (t : List Char) : (escapeTicks t).head? = t.head? := by
  cases t with
  | nil => rfl
  | cons c rest =>
      cases rest with
      | nil => rfl
      | cons d rest =>
          rw [escapeTicks]
          split
          · next h => rw [h.1]; rfl
          · rfl

theorem escape_ticks (rest : List Char) :
    escape (tick :: tick :: rest) = tick :: tick :: tick :: escape rest := by
  have hplain : ∀ us, escapeDollars (tick :: us) = tick :: escapeDollars us := fun us =>
    escapeDollars_cons fun h => absurd h.1 (by decide)
  rw [escape, escapeTicks, if_pos ⟨rfl, rfl⟩, hplain, hplain, hplain]
  rfl

theorem escape_open (rest : List Char) :
    escape ('$' :: '\x7b' :: rest) = tick :: tick :: '$' :: '\x7b' :: escape rest := by
  rw [escape, escapeTicks_cons fun h => absurd h.1 (by decide),
    escapeTicks_cons fun h => absurd h.1 (by decide), escapeDollars, if_pos ⟨rfl, rfl⟩]
  rfl

theorem escape_cons (hticks : ¬ (c = tick ∧ rest.head? = some tick))
    (hopen : ¬ (c = '$' ∧ rest.head? = some '\x7b')) : escape (c :: rest) = c :: escape rest := by
  rw [escape, escapeTicks_cons hticks, escapeDollars_cons]
  · rfl
  · rwa [head?_escapeTicks]

/-- Texts as escaping takes them apart: by pairs of ticks, by opened interpolations, and else
by characters. -/
@[elab_as_elim]
theorem escape_induction {motive : List Char → Prop} (t : List Char) (nil : motive [])
    (ticks : ∀ rest, motive rest → motive (tick :: tick :: rest))
    (opened : ∀ rest, motive rest → motive ('$' :: '\x7b' :: rest))
    (other : ∀ c rest, ¬ (c = tick ∧ rest.head? = some tick) →
      ¬ (c = '$' ∧ rest.head? = some '\x7b') → motive rest → motive (c :: rest)) : motive t := by
  induction h : t.length using Nat.strongRecOn generalizing t with
  | ind n ih =>
      subst h
      cases t with
      | nil => exact nil
      | cons c rest =>
          have hrest := ih rest.length (by simp) rest rfl
          by_cases hticks : c = tick ∧ rest.head? = some tick
          · obtain ⟨rfl, hhead⟩ := hticks
            obtain ⟨us, rfl⟩ := List.head?_eq_some_iff.1 hhead
            exact ticks us (ih us.length (by simp only [List.length_cons]; omega) us rfl)
          · by_cases hopen : c = '$' ∧ rest.head? = some '\x7b'
            · obtain ⟨rfl, hhead⟩ := hopen
              obtain ⟨us, rfl⟩ := List.head?_eq_some_iff.1 hhead
              exact opened us (ih us.length (by simp only [List.length_cons]; omega) us rfl)
            · exact other c rest hticks hopen hrest

/-- The spelling begins as the text does, unless this opens an interpolation. -/
theorem head?_escape {t : List Char} (h : ¬ ['$', '\x7b'] <+: t) : (escape t).head? = t.head? := by
  induction t using escape_induction with
  | nil => rfl
  | ticks rest _ => rw [escape_ticks]; rfl
  | opened rest _ => exact absurd ⟨rest, rfl⟩ h
  | other c rest hticks hopen _ => rw [escape_cons hticks hopen]; rfl

/-! ## Spoiled texts -/

/-- An odd number of ticks, and no more than these, stands before an interpolation. -/
def Spoiled (t : List Char) : Prop :=
  ∃ before k after, t = before ++ (List.replicate (2 * k + 1) tick ++ '$' :: '\x7b' :: after) ∧
    before.getLast? ≠ some tick

theorem Spoiled.ticks (h : Spoiled rest) : Spoiled (tick :: tick :: rest) := by
  obtain ⟨before, k, after, rfl, hlast⟩ := h
  cases before with
  | nil => exact ⟨[], k + 1, after, rfl, by simp⟩
  | cons b before => exact ⟨tick :: tick :: b :: before, k, after, rfl, by simpa using hlast⟩

theorem Spoiled.cons (hticks : ¬ (c = tick ∧ rest.head? = some tick)) (h : Spoiled rest) :
    Spoiled (c :: rest) := by
  obtain ⟨before, k, after, rfl, hlast⟩ := h
  refine ⟨c :: before, k, after, rfl, ?_⟩
  cases before with
  | nil =>
      intro hc
      exact hticks ⟨by simpa using hc, rfl⟩
  | cons b before => simpa using hlast

theorem not_opens_of_not_spoiled (h : ¬ Spoiled (tick :: rest)) : ¬ ['$', '\x7b'] <+: rest := by
  rintro ⟨after, rfl⟩
  exact h ⟨[], 0, after, rfl, by simp⟩

/-- The first place at which a text is spoiled. -/
theorem Spoiled.first {t : List Char} (h : Spoiled t) :
    ∃ before k after, t = before ++ (List.replicate (2 * k + 1) tick ++ '$' :: '\x7b' :: after) ∧
      before.getLast? ≠ some tick ∧ ¬ Spoiled before := by
  obtain ⟨before, k, after, rfl, hlast⟩ := h
  induction hn : before.length using Nat.strongRecOn generalizing before k after with
  | ind n ih =>
      subst hn
      by_cases hbefore : Spoiled before
      · obtain ⟨before', k', after', rfl, hlast'⟩ := hbefore
        have hlength : before'.length < (before' ++
            (List.replicate (2 * k' + 1) tick ++ '$' :: '\x7b' :: after')).length := by
          rw [List.length_append, List.length_append, List.length_cons]
          omega
        have hshorter := ih before'.length hlength before' k'
          (after' ++ (List.replicate (2 * k + 1) tick ++ '$' :: '\x7b' :: after)) hlast' rfl
        simpa using hshorter
      · exact ⟨before, k, after, rfl, hlast, hbefore⟩

/-! ## Reading what escaping wrote -/

/-- A dollar sign reads as it is before what escaping writes next. -/
theorem read_dollar_escape {more : List Char} (hrest : rest.head? ≠ some '\x7b')
    (hbrace : more.head? ≠ some '\x7b') (hdollar : more.head? ≠ some '$') :
    read escaped ('$' :: (escape rest ++ more))
      = (read escaped (escape rest ++ more)).after ['$'] := by
  induction rest with
  | nil => exact read_dollar escaped hbrace hdollar
  | cons d rest ih =>
      by_cases hopens : ['$', '\x7b'] <+: d :: rest
      · obtain ⟨after, hafter⟩ := hopens
        rw [← hafter]
        show read escaped ('$' :: (escape ('$' :: '\x7b' :: after) ++ more))
          = (read escaped (escape ('$' :: '\x7b' :: after) ++ more)).after ['$']
        rw [escape_open]
        exact read_dollar escaped (by simp [tick]) (by simp [tick])
      · by_cases hd : d = '$'
        · -- Both are read at once, which is the same as one after the other: no brace follows.
          subst hd
          have hnext : rest.head? ≠ some '\x7b' := by
            intro hhead
            obtain ⟨after, rfl⟩ := List.head?_eq_some_iff.1 hhead
            exact hopens ⟨after, rfl⟩
          rw [escape_cons (fun h => absurd h.1 (by decide)) fun h => hnext h.2, List.cons_append,
            read_two_dollars, ih hnext, Reading.after_after]
          rfl
        · have hhead : (escape (d :: rest) ++ more).head? = some d := by
            rw [List.head?_append, head?_escape hopens]
            rfl
          refine read_dollar escaped ?_ ?_
          · rwa [hhead]
          · simpa [hhead] using hd

theorem getLast?_ne_of_cons (h : (c :: rest).getLast? ≠ some tick) :
    rest.getLast? ≠ some tick := by
  cases rest with
  | nil => simp
  | cons r rest => simpa using h

/-- A text that is not spoiled reads as it was, in front of what does not join it. -/
theorem read_escape {t more : List Char} (ht : ¬ Spoiled t) (hbrace : more.head? ≠ some '\x7b')
    (hdollar : more.head? ≠ some '$') (hlast : more.head? = some tick → t.getLast? ≠ some tick) :
    read escaped (escape t ++ more) = (read escaped more).after t := by
  induction t using escape_induction with
  | nil => rfl
  | ticks rest ih =>
      rw [escape_ticks]
      show read escaped (tick :: tick :: tick :: (escape rest ++ more)) = _
      rw [read_three_ticks, ih (fun h => ht h.ticks)
        fun h => getLast?_ne_of_cons (getLast?_ne_of_cons (hlast h)), Reading.after_after]
      rfl
  | opened rest ih =>
      have hrest : ¬ Spoiled rest := fun h =>
        ht ((h.cons (c := '\x7b') fun h => absurd h.1 (by decide)).cons fun h =>
          absurd h.1 (by decide))
      rw [escape_open]
      show read escaped (tick :: tick :: '$' :: '\x7b' :: (escape rest ++ more)) = _
      rw [read_escaped_dollar, read_plain escaped (by decide) (by decide),
        ih hrest fun h => getLast?_ne_of_cons (getLast?_ne_of_cons (hlast h)),
        Reading.after_after, Reading.after_after]
      rfl
  | other c rest hticks hopen ih =>
      have hnext := ih (fun h => ht (h.cons hticks)) fun h => getLast?_ne_of_cons (hlast h)
      rw [escape_cons hticks hopen, List.cons_append]
      by_cases htick : c = tick
      · subst htick
        have hhead : (escape rest ++ more).head? ≠ some tick := by
          rw [List.head?_append, head?_escape (not_opens_of_not_spoiled ht)]
          cases rest with
          | nil => exact fun h => hlast h rfl
          | cons r rest => exact fun h => hticks ⟨rfl, h⟩
        rw [read_tick escaped hhead, hnext, Reading.after_after]
        rfl
      · by_cases hc : c = '$'
        · subst hc
          rw [read_dollar_escape escaped (fun h => hopen ⟨rfl, h⟩) hbrace hdollar, hnext,
            Reading.after_after]
          rfl
        · rw [read_plain escaped htick hc, hnext, Reading.after_after]
          rfl

theorem escape_append {before after : List Char} (hbrace : after.head? ≠ some '\x7b')
    (hlast : before.getLast? ≠ some tick) :
    escape (before ++ after) = escape before ++ escape after := by
  induction before using escape_induction with
  | nil => rfl
  | ticks rest ih =>
      have hrest := ih (getLast?_ne_of_cons (getLast?_ne_of_cons hlast))
      show escape (tick :: tick :: (rest ++ after)) = _
      rw [escape_ticks, escape_ticks, hrest]
      rfl
  | opened rest ih =>
      have hrest := ih (getLast?_ne_of_cons (getLast?_ne_of_cons hlast))
      show escape ('$' :: '\x7b' :: (rest ++ after)) = _
      rw [escape_open, escape_open, hrest]
      rfl
  | other c rest hticks hopen ih =>
      rw [List.cons_append, escape_cons, escape_cons hticks hopen,
        ih (getLast?_ne_of_cons hlast), List.cons_append]
      · rintro ⟨rfl, hhead⟩
        cases rest with
        | nil => exact hlast rfl
        | cons r rest => exact hticks ⟨rfl, hhead⟩
      · rintro ⟨rfl, hhead⟩
        cases rest with
        | nil => exact hbrace hhead
        | cons r rest => exact hopen ⟨rfl, hhead⟩

/-- The last of an odd number of ticks joins those that are to escape the interpolation. -/
theorem read_run (k : Nat) (after more : List Char) :
    read escaped (escape (List.replicate (2 * k + 1) tick ++ '$' :: '\x7b' :: after) ++ more)
      = ⟨List.replicate (2 * k + 2) tick, .interpolation (escape after ++ more)⟩ := by
  induction k with
  | zero =>
      show read escaped (escape (tick :: '$' :: '\x7b' :: after) ++ more) = _
      rw [escape_cons (fun h => absurd h.2 (by simp [tick])) fun h => absurd h.1 (by decide),
        escape_open]
      show read escaped (tick :: tick :: tick :: '$' :: '\x7b' :: (escape after ++ more)) = _
      rw [read_three_ticks, read_interpolation]
      rfl
  | succ k ih =>
      show read escaped (escape (tick :: tick ::
        (List.replicate (2 * k + 1) tick ++ '$' :: '\x7b' :: after)) ++ more) = _
      rw [escape_ticks]
      show read escaped (tick :: tick :: tick ::
        (escape (List.replicate (2 * k + 1) tick ++ '$' :: '\x7b' :: after) ++ more)) = _
      rw [read_three_ticks, ih]
      rfl

/-- A spoiled text opens an interpolation at the first such place. -/
theorem read_escape_spoiled {before : List Char} (k : Nat) (after more : List Char)
    (hlast : before.getLast? ≠ some tick) (hbefore : ¬ Spoiled before) :
    read escaped
        (escape (before ++ (List.replicate (2 * k + 1) tick ++ '$' :: '\x7b' :: after)) ++ more)
      = ⟨before ++ List.replicate (2 * k + 2) tick, .interpolation (escape after ++ more)⟩ := by
  generalize hrun : List.replicate (2 * k + 1) tick ++ '$' :: '\x7b' :: after = run
  have hhead : run.head? = some tick := by
    rw [← hrun, List.replicate_succ]
    rfl
  have hopens : ¬ ['$', '\x7b'] <+: run := by
    rintro ⟨us, rfl⟩
    simp [tick] at hhead
  have hmore : (escape run ++ more).head? = some tick := by
    rw [List.head?_append, head?_escape hopens, hhead]
    rfl
  rw [escape_append (by simp [hhead, tick]) hlast, List.append_assoc,
    read_escape escaped hbefore (by simp [hmore, tick]) (by simp [hmore, tick]) fun _ => hlast,
    ← hrun, read_run]
  rfl

/-- **Escaped texts read back, if no tick is left over before an interpolation.** Whatever
the text, what is read of its spelling and a blank never ends the string. It is the
text and the blank if the text is not spoiled, and then whatever follows is read
behind them. Otherwise the first place that spoils it opens an interpolation, and a
tick more than the text has there comes before. -/
theorem escaped_text_reads_back (t : String) :
    (∀ rest, (read escaped ((escapeIndented t).toList ++ [' '])).stop ≠ .ended rest) ∧
    (¬ Spoiled t.toList ↔
      read escaped ((escapeIndented t).toList ++ [' ']) = ⟨t.toList ++ [' '], .exhausted⟩) ∧
    (¬ Spoiled t.toList → ∀ more, read escaped ((escapeIndented t).toList ++ ' ' :: more)
      = (read escaped more).after (t.toList ++ [' '])) ∧
    (Spoiled t.toList → ∃ before k after,
      t.toList = before ++ (List.replicate (2 * k + 1) tick ++ '$' :: '\x7b' :: after) ∧
      before.getLast? ≠ some tick ∧ ¬ Spoiled before ∧
      read escaped ((escapeIndented t).toList ++ [' '])
        = ⟨before ++ List.replicate (2 * k + 2) tick, .interpolation (escape after ++ [' '])⟩) := by
  rw [toList_escapeIndented]
  generalize t.toList = cs
  have hblank : ∀ more, read escaped (' ' :: more) = (read escaped more).after [' '] := fun more =>
    read_plain escaped (by decide) (by decide)
  have hgood : ¬ Spoiled cs → ∀ more, read escaped (escape cs ++ ' ' :: more)
      = (read escaped more).after (cs ++ [' ']) := by
    intro hcs more
    rw [read_escape escaped hcs (by simp) (by simp) (by simp [tick]), hblank, Reading.after_after]
  have hspoiled : Spoiled cs → ∃ before k after,
      cs = before ++ (List.replicate (2 * k + 1) tick ++ '$' :: '\x7b' :: after) ∧
      before.getLast? ≠ some tick ∧ ¬ Spoiled before ∧
      read escaped (escape cs ++ [' '])
        = ⟨before ++ List.replicate (2 * k + 2) tick, .interpolation (escape after ++ [' '])⟩ := by
    intro hcs
    obtain ⟨before, k, after, rfl, hlast, hbefore⟩ := hcs.first
    exact ⟨before, k, after, rfl, hlast, hbefore,
      read_escape_spoiled escaped k after [' '] hlast hbefore⟩
  have hexhausted : ¬ Spoiled cs →
      read escaped (escape cs ++ [' ']) = ⟨cs ++ [' '], .exhausted⟩ := by
    intro hcs
    rw [hgood hcs []]
    rw [Reading.after, read_nil, List.append_nil]
  refine ⟨fun rest hstop => ?_, ⟨hexhausted, fun hread hcs => ?_⟩, hgood, hspoiled⟩
  · by_cases hcs : Spoiled cs
    · obtain ⟨before, k, after, -, -, -, hread⟩ := hspoiled hcs
      rw [hread] at hstop
      cases hstop
    · rw [hexhausted hcs] at hstop
      cases hstop
  · obtain ⟨before, k, after, -, -, -, hread'⟩ := hspoiled hcs
    rw [hread'] at hread
    cases (Reading.mk.inj hread).2

/-- Pairs of ticks and interpolations apart from each other read back, in front of the script of
a node; a single tick before an interpolation opens it. -/
theorem left_over_tick_opens_interpolation :
    read id ((escapeIndented "a''b$\x7bc\x7d").toList ++ ' ' :: "$\x7bs".toList)
      = ⟨"a''b$\x7bc\x7d ".toList, .interpolation ['s']⟩ ∧
    ∃ text rest, read id ((escapeIndented "'$\x7bx\x7d").toList ++ [' '])
      = ⟨text, .interpolation rest⟩ := by
  constructor
  · obtain ⟨-, hgood, hread, -⟩ := escaped_text_reads_back id "a''b$\x7bc\x7d"
    rw [hread (hgood.2 (by decide))]
    decide
  · obtain ⟨-, -, -, hspoiled⟩ := escaped_text_reads_back id "'$\x7bx\x7d"
    obtain ⟨before, k, after, -, -, -, hread⟩ :=
      hspoiled ⟨[], 0, ['x', '\x7d'], by decide, by decide⟩
    exact ⟨_, _, hread⟩

end NodePipeline.Indented

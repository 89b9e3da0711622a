import LoxLexer.Proofs.Faults
import LoxLexer.Proofs.Lexemes

/-!
# The dump of tokens

A dump writes one token after the other and escapes nothing, so that a string can look like other
lines of a dump. It can be read back all the same. The name of a kind ends at the first space, and
says where the lexeme ends: that of a string at the second quote, any other at the next space. The
literal follows from kind and lexeme, and with it where the next token begins.

## Main definitions

* `Token.dumped t`: the bytes that a dump has for the token `t`
* `Token.Legible t`: the literal of `t` follows from its lexeme, and the end of this can be seen

## Main results

* `Grammar.Spells.legible`, `legible_of_mem_tokens`: the tokens of a scan are legible
* `Token.dumped_append_inj`: the first token of a dump can be read back
* `Session.Reachable.dump_unambiguous`: sources with the same dump have the same tokens
-/

namespace LoxLexer

open Segment (space)

/-- What comes before the first separator is determined, and so is what comes behind it. -/
theorem append_cons_inj {sep : UInt8} {xs xs' ys ys' : List UInt8} (hxs : sep ∉ xs)
    (hxs' : sep ∉ xs') (h : xs ++ sep :: ys = xs' ++ sep :: ys') : xs = xs' ∧ ys = ys' := by
  have before {xs : List UInt8} (hxs : sep ∉ xs) (ys : List UInt8) :
      (xs ++ sep :: ys).takeWhile (· != sep) = xs := by
    rw [List.takeWhile_append_of_pos]
    · simp
    · intro x hx
      simpa using ne_of_mem_of_not_mem hx hxs
  have same : xs = xs' := by rw [← before hxs ys, h, before hxs' ys']
  subst same
  exact ⟨rfl, (List.cons.inj (List.append_cancel_left h)).2⟩

namespace Token

variable {t u : Token} {xs ys : List UInt8}

/-- The bytes that a dump has for a token. -/
def dumped (t : Token) : List UInt8 :=
  Utf8.bytes (t.display ++ "\n")

theorem dumped_eq (t : Token) :
    t.dumped = Utf8.bytes t.kind.name ++ space :: (Utf8.bytes t.lexeme ++
      space :: (Utf8.bytes ((t.literal.map Literal.display).getD "") ++ [lineFeed])) := by
  have blank : Utf8.bytes " " = [space] := by decide
  have feed : Utf8.bytes "\n" = [lineFeed] := by decide
  simp only [dumped, display, Utf8.bytes_append, blank, feed, List.append_assoc, List.cons_append,
    List.nil_append]

/-- **A token that can be read back**: a string between quotes that hold no other quote, or a token
without spaces whose literal its lexeme decides. -/
inductive Legible (t : Token) : Prop
  | quoted (value : String) (hkind : t.kind = .string)
    (hvalue : Segment.quote ∉ Utf8.bytes value)
    (hlexeme : Utf8.bytes t.lexeme = Segment.quote :: (Utf8.bytes value ++ [Segment.quote]))
    (hliteral : t.literal = some (.string value))
  | plain (hkind : t.kind ≠ .string) (hlexeme : space ∉ Utf8.bytes t.lexeme)
    (hliteral : t.literal =
      if t.kind = .number then some (.number (Segment.numeral (Utf8.bytes t.lexeme))) else none)

theorem space_notMem_name (k : TokenKind) : space ∉ Utf8.bytes k.name := by
  cases k with
  | keyword w => cases w <;> decide
  | _ => decide

theorem kind_eq_of_name {k k' : TokenKind} (h : k.name = k'.name) : k = k' := by
  have found := TokenKind.ofName?_name k
  rw [h, TokenKind.ofName?_name] at found
  exact (Option.some.inj found).symm

/-- **The first token of a dump can be read back**, and what follows it is left over. -/
theorem dumped_append_inj (ht : t.Legible) (hu : u.Legible)
    (h : t.dumped ++ xs = u.dumped ++ ys) : t.content = u.content ∧ xs = ys := by
  rw [dumped_eq, dumped_eq, List.append_assoc, List.append_assoc, List.cons_append,
    List.cons_append] at h
  -- the name of the kind ends at the first space
  obtain ⟨hname, h⟩ := append_cons_inj (space_notMem_name _) (space_notMem_name _) h
  have hkind : t.kind = u.kind := kind_eq_of_name (Utf8.bytes_injective hname)
  rw [List.append_assoc, List.append_assoc] at h
  suffices same : t.lexeme = u.lexeme ∧ t.literal = u.literal by
    obtain ⟨hlexeme, hliteral⟩ := same
    rw [hlexeme, hliteral] at h
    have tail := (List.cons.inj (List.append_cancel_left h)).2
    exact ⟨by rw [content, content, hkind, hlexeme, hliteral], List.append_cancel_left tail⟩
  cases ht with
  | quoted value hstring hvalue hlexeme hliteral =>
    cases hu with
    | plain hother _ _ => exact absurd (hkind.symm.trans hstring) hother
    | quoted value' _ hvalue' hlexeme' hliteral' =>
      -- the lexeme ends at its second quote, whatever is between the two
      rw [hlexeme, hlexeme'] at h
      simp only [List.cons_append, List.append_assoc, List.nil_append] at h
      obtain ⟨hbytes, -⟩ := append_cons_inj hvalue hvalue' (List.cons.inj h).2
      refine ⟨Utf8.bytes_injective ?_, ?_⟩
      · rw [hlexeme, hlexeme', hbytes]
      · rw [hliteral, hliteral', Utf8.bytes_injective hbytes]
  | plain hother hlexeme hliteral =>
    cases hu with
    | quoted _ hstring _ _ _ => exact absurd (hkind.trans hstring) hother
    | plain _ hlexeme' hliteral' =>
      -- the lexeme ends at the next space
      obtain ⟨hbytes, -⟩ := append_cons_inj hlexeme hlexeme' h
      refine ⟨Utf8.bytes_injective hbytes, ?_⟩
      rw [hliteral, hliteral', hkind, hbytes]

theorem dumped_ne_nil (t : Token) : t.dumped ≠ [] := by
  rw [dumped_eq]
  exact List.append_ne_nil_of_right_ne_nil _ (List.cons_ne_nil _ _)

/-- **A dump can be read back**, token by token. -/
theorem flatMap_dumped_inj {ts us : List Token} (hts : ∀ t ∈ ts, t.Legible)
    (hus : ∀ u ∈ us, u.Legible) (h : ts.flatMap dumped = us.flatMap dumped) :
    ts.map content = us.map content := by
  induction ts generalizing us with
  | nil =>
    cases us with
    | nil => rfl
    | cons u us =>
      rw [List.flatMap_cons] at h
      exact absurd (List.append_eq_nil_iff.mp h.symm).1 u.dumped_ne_nil
  | cons t ts ih =>
    cases us with
    | nil =>
      rw [List.flatMap_cons] at h
      exact absurd (List.append_eq_nil_iff.mp h).1 t.dumped_ne_nil
    | cons u us =>
      obtain ⟨ht, hts⟩ := List.forall_mem_cons.mp hts
      obtain ⟨hu, hus⟩ := List.forall_mem_cons.mp hus
      rw [List.flatMap_cons, List.flatMap_cons] at h
      obtain ⟨hcontent, htail⟩ := dumped_append_inj ht hu h
      rw [List.map_cons, List.map_cons, hcontent, ih hts hus htail]

/-- What is dumped does not depend on lines. -/
theorem flatMap_dumped_eq (ts : List Token) :
    ts.flatMap dumped = (ts.map content).flatMap fun c => dumped ⟨c.1, c.2.1, c.2.2, 0⟩ := by
  rw [List.flatMap_map]
  rfl

end Token

/-! ## The tokens of a scan -/

section Scan

open Segment

variable {c : SegmentClass} {t : Token} {source : List UInt8}

/-- **A token that is spelled by its lexeme is legible.** -/
theorem Grammar.Spells.legible (h : Spells c t) : t.Legible := by
  obtain ⟨ht, hw, htoken⟩ := h
  -- no lexeme other than that of a string has a space in it
  have graphic (hc : c ≠ .string) : space ∉ Utf8.bytes t.lexeme := by
    intro hspace
    have hwhite := (graphic_of_mem_language ht hc hw space hspace).2
    exact absurd hwhite (by decide)
  cases c with
  | string =>
    obtain ⟨body, hbytes, hbody⟩ := mem_string_iff_notMem.mp hw
    have recoded : Utf8.recoded body = body := by
      have again := Utf8.recoded_bytes t.lexeme
      rw [hbytes, recoded_quoted] at again
      exact List.append_cancel_right (List.cons.inj again).2
    have value : Utf8.bytes (Utf8.text body) = body := recoded
    have parts := Option.some.inj htoken
    refine .quoted (Utf8.text body) (congrArg Token.kind parts).symm ?_ ?_ ?_
    · rwa [value]
    · rw [value, hbytes]
    · rw [← congrArg Token.literal parts]
      dsimp only
      rw [hbytes, unquoted_quoted]
  | number =>
    have parts := Option.some.inj htoken
    have hkind : t.kind = .number := (congrArg Token.kind parts).symm
    refine .plain (by rw [hkind]; decide) (graphic (by decide)) ?_
    rw [if_pos hkind]
    exact (congrArg Token.literal parts).symm
  | mark kind =>
    have parts := Option.some.inj htoken
    have hkind : t.kind = kind := (congrArg Token.kind parts).symm
    obtain ⟨hnumber, hstring, -⟩ := kind_of_mem_mark hw
    refine .plain (hkind ▸ hstring) (graphic (by simp)) ?_
    rw [if_neg (hkind ▸ hnumber)]
    exact (congrArg Token.literal parts).symm
  | word =>
    have parts := Option.some.inj htoken
    have hkind : t.kind = .ofWord (Utf8.bytes t.lexeme) := (congrArg Token.kind parts).symm
    have other : t.kind ≠ .string ∧ t.kind ≠ .number := by
      rw [hkind]
      rcases ofWord_cases (Utf8.bytes t.lexeme) with ⟨k, -, hk⟩ | ⟨-, hk⟩ <;> simp [hk]
    refine .plain other.1 (graphic (by decide)) ?_
    rw [if_neg other.2]
    exact (congrArg Token.literal parts).symm
  | comment | blank | lineBreak | openString | stray => cases ht

theorem Token.legible_endOfInput (line : Nat) : (Token.endOfInput line).Legible :=
  .plain (by simp [endOfInput]) (by simp [endOfInput]; decide) rfl

/-- **The tokens of a scan are legible.** -/
theorem legible_of_mem_tokens (h : t ∈ (scan source).tokens) : t.Legible := by
  rw [tokens_scan] at h
  rcases List.mem_append.mp h with h | h
  · obtain ⟨c, spells⟩ := Grammar.exists_spells h
    exact spells.legible
  · rw [List.mem_singleton.mp h]
    exact Token.legible_endOfInput _

end Scan

/-! ## Dumps on streams that do not fail -/

namespace Session

variable {s t : Session}

theorem dumpBytes_eq (source : List UInt8) :
    dumpBytes source = (scan source).tokens.flatMap Token.dumped := by
  rw [dumpBytes, Sink.bytesOf, dump, List.flatMap_map]
  rfl

/-- **The dump of tokens is unambiguous.** On streams that never fail, two runs write the same to
the standard output when, and only when, their sources have the same tokens, up to the lines of
these. -/
theorem Reachable.dump_unambiguous (hs : Reachable s) (ht : Reachable t) (name name' : String)
    (a b : List UInt8) :
    (s.unfailing.run name a).2.console.stdout.written =
        (t.unfailing.run name' b).2.console.stdout.written ↔
      (scan a).tokens.map Token.content = (scan b).tokens.map Token.content := by
  rw [(hs.run_unfailing name a).stdout_eq, (ht.run_unfailing name' b).stdout_eq, dumpBytes_eq,
    dumpBytes_eq]
  constructor
  · intro h
    exact Token.flatMap_dumped_inj (fun t => legible_of_mem_tokens)
      (fun t => legible_of_mem_tokens) h
  · intro h
    rw [Token.flatMap_dumped_eq, h, ← Token.flatMap_dumped_eq]

/-- A string that looks like two lines of a dump. -/
def imitation : List UInt8 :=
  Utf8.bytes "\x22a\nEOF  \n\x22"

/-- The same string, and the same behind a stray byte and a comment. -/
theorem dump_unambiguous_imitation :
    let dumped (source : List UInt8) :=
      (reporting.unfailing.run "main.lox" source).2.console.stdout.written
    let commented := Utf8.bytes "@//\n" ++ imitation
    dumped imitation = dumped commented ∧
    (scan imitation).tokens.map Token.content = (scan commented).tokens.map Token.content := by
  dsimp only
  have same : (reporting.unfailing.run "main.lox" imitation).2.console.stdout.written =
      (reporting.unfailing.run "main.lox"
        (Utf8.bytes "@//\n" ++ imitation)).2.console.stdout.written := by
    decide +kernel
  have reachable := reachable_reporting
  exact ⟨same, (reachable.dump_unambiguous reachable "main.lox" "main.lox" _ _).mp same⟩

end Session

end LoxLexer

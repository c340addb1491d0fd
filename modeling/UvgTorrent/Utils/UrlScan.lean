import UvgTorrent.Library.FormCoding
import UvgTorrent.Utils.UrlCoding

/-!
# URL coding, byte by byte

`string_urldecode` looks up to two bytes ahead of its pointer and moves by one
or by three.  Here each of its reads is a read of the block that its input
lies in, and its writes are counted.
-/

namespace UvgTorrent

open CProgram CText CArray FormCoding

/-- The block behind `buf`, and how many bytes have been stored there. -/
structure UrlOutput where
  buf : Buffer
  written : Nat

/-- `*pbuf++ = byte` -/
def UrlOutput.put (out : UrlOutput) (byte : UInt8) : UrlOutput :=
  ⟨out.buf.store out.written byte, out.written + 1⟩

def UrlOutput.putAll (out : UrlOutput) (bytes : List UInt8) : UrlOutput :=
  ⟨out.buf.storeAll out.written bytes, out.written + bytes.length⟩

/-- The loop of `string_urldecode` and the terminator behind it, with at most
`rounds` tests of `*pstr`. -/
def urldecodeLoop (input : List UInt8) :
    Nat → Nat → UrlOutput → Exec UrlOutput
  | 0, _, _ => .error .unfinished
  | rounds + 1, pstr, out => do
      let byte ← peek input pstr
      if byte = 0 then
        pure (out.put 0)
      else if byte = ch '%' then do
        let high ← peek input (pstr + 1)
        if high = 0 then
          urldecodeLoop input rounds (pstr + 1) out
        else do
          let low ← peek input (pstr + 2)
          if low = 0 then
            urldecodeLoop input rounds (pstr + 1) out
          else
            urldecodeLoop input rounds (pstr + 3)
              (out.put (fromHex high <<< 4 ||| fromHex low))
      else if byte = ch '+' then
        urldecodeLoop input rounds (pstr + 1) (out.put (ch ' '))
      else
        urldecodeLoop input rounds (pstr + 1) (out.put byte)

/-- The loop of `string_urlencode` and the terminator behind it. -/
def urlencodeLoop (input : List UInt8) :
    Nat → Nat → UrlOutput → Exec UrlOutput
  | 0, _, _ => .error .unfinished
  | rounds + 1, pstr, out => do
      let byte ← peek input pstr
      if byte = 0 then
        pure (out.put 0)
      else
        urlencodeLoop input rounds (pstr + 1)
          (out.putAll (urlencodeByte byte))

/-- `string_urldecode` on a block that ends with its input. -/
def urldecodeRun (around : Surroundings) (input : CString) (rounds : Nat) :
    Exec UrlOutput :=
  urldecodeLoop (input.bytes ++ [0]) rounds 0
    ⟨around.block (input.strlen + 1), 0⟩

/-- `string_urlencode` on a block that ends with its input. -/
def urlencodeRun (around : Surroundings) (input : CString) (rounds : Nat) :
    Exec UrlOutput :=
  urlencodeLoop (input.bytes ++ [0]) rounds 0
    ⟨around.block (input.strlen * 3 + 1), 0⟩

section Loops

variable {before rest : List UInt8} {byte : UInt8} {rounds : Nat}

theorem peek_append (before tail : List UInt8) (offset : Nat) :
    peek (before ++ tail) (before.length + offset) = peek tail offset := by
  rw [peek, peek, List.getElem?_append_right (Nat.le_add_right _ _),
    Nat.add_sub_cancel_left]

theorem peek_here (before : List UInt8) (byte : UInt8)
    (tail : List UInt8) :
    peek (before ++ byte :: tail) before.length = .ok byte :=
  peek_append before (byte :: tail) 0

theorem UrlOutput.putAll_append (out : UrlOutput)
    (first second : List UInt8) :
    out.putAll (first ++ second) = (out.putAll first).putAll second := by
  rw [putAll, Buffer.storeAll_append, List.length_append, ← Nat.add_assoc]
  rfl

theorem UrlOutput.putAll_cons (out : UrlOutput) (byte : UInt8)
    (rest : List UInt8) :
    out.putAll (byte :: rest) = (out.put byte).putAll rest :=
  out.putAll_append [byte] rest

theorem urldecodeLoop_end (before : List UInt8) (out : UrlOutput)
    (rounds : Nat) :
    urldecodeLoop (before ++ [0]) (rounds + 1) before.length out =
      .ok (out.put 0) := by
  rw [urldecodeLoop, peek_here, ok_bind, if_pos rfl]
  rfl

/-- A byte that opens no escape. -/
theorem urldecodeLoop_plain (notNul : byte ≠ 0) (noPercent : byte ≠ ch '%')
    (tail : List UInt8) (out : UrlOutput) :
    urldecodeLoop (before ++ byte :: tail) (rounds + 1) before.length out =
      urldecodeLoop (before ++ byte :: tail) rounds (before.length + 1)
        (out.put (urldecodePlain byte)) := by
  rw [urldecodeLoop, peek_here, ok_bind, if_neg notNul, if_neg noPercent,
    urldecodePlain]
  split <;> rfl

/-- A percent sign with two bytes behind it, whatever they are. -/
theorem urldecodeLoop_escape {high low : UInt8} (highNul : high ≠ 0)
    (lowNul : low ≠ 0) (tail : List UInt8) (out : UrlOutput) :
    urldecodeLoop (before ++ ch '%' :: high :: low :: tail) (rounds + 1)
        before.length out =
      urldecodeLoop (before ++ ch '%' :: high :: low :: tail) rounds
        (before.length + 3)
        (out.put (fromHex high <<< 4 ||| fromHex low)) := by
  rw [urldecodeLoop, peek_here, ok_bind, if_neg (by decide), if_pos rfl,
    peek_append]
  show (if high = 0 then _ else _) = _
  rw [if_neg highNul, peek_append]
  exact if_neg lowNul

/-- A percent sign with one byte behind it or none. -/
theorem urldecodeLoop_cut {tail : List UInt8} (short : tail.length < 2)
    (noNul : 0 ∉ tail) (out : UrlOutput) :
    urldecodeLoop (before ++ ch '%' :: (tail ++ [0])) (rounds + 1)
        before.length out =
      urldecodeLoop (before ++ ch '%' :: (tail ++ [0])) rounds
        (before.length + 1) out := by
  rw [urldecodeLoop, peek_here, ok_bind, if_neg (by decide), if_pos rfl,
    peek_append]
  cases tail with
  | nil =>
      rfl
  | cons high tail =>
      have ended : tail = [] := by
        rw [List.length_cons] at short
        exact List.eq_nil_of_length_eq_zero (by omega)
      rw [ended] at noNul ⊢
      rw [List.mem_singleton] at noNul
      show (if high = 0 then _ else _) = _
      rw [if_neg (Ne.symm noNul), peek_append]
      rfl

/-- Wherever the pointer comes to `rest`, the loop decodes it and ends. -/
def DecodesRest (rest : List UInt8) : Prop :=
  ∀ before rounds out, rest.length < rounds →
    urldecodeLoop (before ++ (rest ++ [0])) rounds before.length out =
      .ok (out.putAll (urldecodeBytes rest ++ [0]))

theorem decodesRest_plain (notNul : byte ≠ 0) (noPercent : byte ≠ ch '%')
    (further : DecodesRest rest) : DecodesRest (byte :: rest) := by
  intro before rounds out enough
  rw [List.length_cons] at enough
  obtain ⟨rounds, rfl⟩ := Nat.exists_eq_add_one_of_ne_zero
    (by omega : rounds ≠ 0)
  have decoded := further (before ++ [byte]) rounds
    (out.put (urldecodePlain byte)) (by omega)
  rw [List.append_assoc, List.length_append] at decoded
  rw [List.cons_append, urldecodeLoop_plain notNul noPercent,
    urldecodeBytes_plain noPercent, List.cons_append, UrlOutput.putAll_cons]
  exact decoded

theorem decodesRest_escape {high low : UInt8} (highNul : high ≠ 0)
    (lowNul : low ≠ 0) (further : DecodesRest rest) :
    DecodesRest (ch '%' :: high :: low :: rest) := by
  intro before rounds out enough
  rw [List.length_cons, List.length_cons, List.length_cons] at enough
  obtain ⟨rounds, rfl⟩ := Nat.exists_eq_add_one_of_ne_zero
    (by omega : rounds ≠ 0)
  have decoded := further (before ++ [ch '%', high, low]) rounds
    (out.put (fromHex high <<< 4 ||| fromHex low)) (by omega)
  rw [List.append_assoc, List.length_append] at decoded
  rw [List.cons_append, List.cons_append, List.cons_append,
    urldecodeLoop_escape highNul lowNul, urldecodeBytes_escape,
    List.cons_append, UrlOutput.putAll_cons]
  exact decoded

/-- The percent sign of an escape that is cut off is dropped. -/
theorem decodesRest_cut (short : rest.length < 2) (noNul : 0 ∉ rest)
    (dropped : urldecodeBytes (ch '%' :: rest) = urldecodeBytes rest)
    (further : DecodesRest rest) : DecodesRest (ch '%' :: rest) := by
  intro before rounds out enough
  rw [List.length_cons] at enough
  obtain ⟨rounds, rfl⟩ := Nat.exists_eq_add_one_of_ne_zero
    (by omega : rounds ≠ 0)
  have decoded := further (before ++ [ch '%']) rounds out (by omega)
  rw [List.append_assoc, List.length_append] at decoded
  rw [List.cons_append, urldecodeLoop_cut short noNul, dropped]
  exact decoded

theorem decodesRest (noNul : 0 ∉ rest) : DecodesRest rest := by
  induction rest using urldecodeBytes.induct with
  | case1 high low rest inductionHypothesis =>
      simp only [List.mem_cons, not_or] at noNul
      exact decodesRest_escape (Ne.symm noNul.2.1) (Ne.symm noNul.2.2.1)
        (inductionHypothesis noNul.2.2.2)
  | case2 byte high low rest plain inductionHypothesis =>
      rw [List.mem_cons, not_or] at noNul
      exact decodesRest_plain (Ne.symm noNul.1) plain
        (inductionHypothesis noNul.2)
  | case3 rest short inductionHypothesis =>
      rw [List.mem_cons, not_or] at noNul
      have few : rest.length < 2 := by
        cases rest with
        | nil =>
            exact Nat.zero_lt_two
        | cons high rest =>
            cases rest with
            | nil =>
                exact Nat.one_lt_two
            | cons low rest =>
                exact absurd rfl (short high low rest)
      exact decodesRest_cut few noNul.2
        ((urldecodeBytes.eq_2 _ _ short).trans (if_pos rfl))
        (inductionHypothesis noNul.2)
  | case4 byte rest short plain inductionHypothesis =>
      rw [List.mem_cons, not_or] at noNul
      exact decodesRest_plain (Ne.symm noNul.1) plain
        (inductionHypothesis noNul.2)
  | case5 =>
      intro before rounds out enough
      obtain ⟨rounds, rfl⟩ := Nat.exists_eq_add_one_of_ne_zero
        (Nat.ne_zero_of_lt enough)
      exact urldecodeLoop_end before out rounds

theorem urlencodeLoop_rest (noNul : 0 ∉ rest)
    (enough : rest.length < rounds) (out : UrlOutput) :
    urlencodeLoop (before ++ (rest ++ [0])) rounds before.length out =
      .ok (out.putAll (rest.flatMap urlencodeByte ++ [0])) := by
  induction rest generalizing before rounds out with
  | nil =>
      obtain ⟨rounds, rfl⟩ := Nat.exists_eq_add_one_of_ne_zero
        (Nat.ne_zero_of_lt enough)
      rw [List.nil_append, urlencodeLoop, peek_here, ok_bind, if_pos rfl]
      rfl
  | cons byte rest inductionHypothesis =>
      rw [List.mem_cons, not_or] at noNul
      rw [List.length_cons] at enough
      obtain ⟨rounds, rfl⟩ := Nat.exists_eq_add_one_of_ne_zero
        (by omega : rounds ≠ 0)
      have further := @inductionHypothesis (before ++ [byte]) rounds noNul.2
        (by omega) (out.putAll (urlencodeByte byte))
      rw [List.append_assoc, List.length_append] at further
      rw [List.cons_append, urlencodeLoop, peek_here, ok_bind,
        if_neg (Ne.symm noNul.1), List.flatMap_cons, List.append_assoc,
        UrlOutput.putAll_append]
      exact further

end Loops

section Runs

variable (around : Surroundings) (input : CString) {rounds : Nat}

/-- The loop stores what `stringUrldecode` says. -/
theorem urldecodeRun_eq (enough : input.strlen < rounds) :
    urldecodeRun around input rounds =
      .ok ⟨stringUrldecode around input,
        (urldecodeBytes input.bytes).length + 1⟩ := by
  have decoded := decodesRest input.noNul [] rounds
    ⟨around.block (input.strlen + 1), 0⟩ enough
  rw [List.nil_append, List.length_nil] at decoded
  rw [urldecodeRun, decoded, UrlOutput.putAll, Nat.zero_add,
    List.length_append]
  rfl

theorem urlencodeRun_eq (enough : input.strlen < rounds) :
    urlencodeRun around input rounds =
      .ok ⟨stringUrlencode around input,
        (input.bytes.flatMap urlencodeByte).length + 1⟩ := by
  have encoded := @urlencodeLoop_rest [] input.bytes rounds input.noNul
    enough ⟨around.block (input.strlen * 3 + 1), 0⟩
  rw [List.nil_append, List.length_nil] at encoded
  rw [urlencodeRun, encoded, UrlOutput.putAll, Nat.zero_add,
    List.length_append]
  rfl

/-- Both functions come to their end on any text, read nothing behind its
terminator and store at most as many bytes as their block has. -/
theorem urlCoding_inside :
    (∃ out, (∀ rounds, input.strlen < rounds →
        urldecodeRun around input rounds = .ok out) ∧
      out.buf.stray = [] ∧ out.written ≤ input.strlen + 1) ∧
    (∃ out, (∀ rounds, input.strlen < rounds →
        urlencodeRun around input rounds = .ok out) ∧
      out.buf.stray = [] ∧ out.written ≤ 3 * input.strlen + 1) := by
  rcases stringUrldecode_returns around input with ⟨_, decoded⟩
  rcases stringUrlencode_returns around input with ⟨_, encoded⟩
  have shorter := urldecodeBytes_length input.bytes
  have longer := urlencodeBytes_length input.bytes
  refine ⟨⟨_, fun rounds => urldecodeRun_eq around input, ?_, ?_⟩,
    ⟨_, fun rounds => urlencodeRun_eq around input, ?_, ?_⟩⟩
  · exact congrArg Buffer.stray decoded
  · exact Nat.succ_le_succ shorter
  · exact congrArg Buffer.stray encoded
  · show (input.bytes.flatMap urlencodeByte).length + 1 ≤
      3 * input.bytes.length + 1
    omega

end Runs

/-! ## Form decoding -/

theorem fromHex_escape (high low : HexDigit) :
    fromHex high.byte <<< 4 ||| fromHex low.byte =
      UInt8.ofNat (16 * high.value + low.value) := by
  have each : ∀ (high : Fin 16) (highUpper : Bool) (low : Fin 16)
      (lowUpper : Bool),
      fromHex (HexDigit.byte ⟨high, highUpper⟩) <<< 4 |||
          fromHex (HexDigit.byte ⟨low, lowUpper⟩) =
        UInt8.ofNat (16 * high + low) := by
    decide +kernel
  exact each high.value high.upper low.value low.upper

theorem urldecodeBytes_item (item : FormItem) (rest : List UInt8) :
    urldecodeBytes (item.spelling ++ rest) =
      item.meaning :: urldecodeBytes rest := by
  cases item with
  | kept byte noEscape noPlus =>
      exact (urldecodeBytes_plain noEscape rest).trans
        (congrArg (· :: urldecodeBytes rest) (if_neg noPlus))
  | plus =>
      exact urldecodeBytes_plain (by decide) rest
  | escape high low =>
      exact (urldecodeBytes_escape high.byte low.byte rest).trans
        (congrArg (· :: urldecodeBytes rest) (fromHex_escape high low))

theorem urldecodeBytes_spell (items : List FormItem) :
    urldecodeBytes (spell items) = decode items := by
  induction items with
  | nil =>
      rfl
  | cons item items inductionHypothesis =>
      have first := urldecodeBytes_item item (spell items)
      rw [inductionHypothesis] at first
      exact first

/-- An escaped text is spelled by items, and what is stored in front of the
terminator are their meanings. -/
theorem urldecode_formDecodes (around : Surroundings) {input : CString}
    (escaped : Escaped input.bytes) :
    (∃ items, input.bytes = spell items) ∧
    ∀ items, input.bytes = spell items →
      ∃ out rest, (∀ rounds, input.strlen < rounds →
          urldecodeRun around input rounds = .ok out) ∧
        out.buf = .ofCells (decode items ++ 0 :: rest) ∧
        out.written = (decode items).length + 1 := by
  refine ⟨escaped.items, ?_⟩
  intro items spelled
  rcases stringUrldecode_returns around input with ⟨rest, stored⟩
  rw [spelled, urldecodeBytes_spell] at stored
  refine ⟨_, rest, fun rounds => urldecodeRun_eq around input, stored, ?_⟩
  rw [spelled, urldecodeBytes_spell]

/-- `%2b+%C3x` -/
def mixedItems : List FormItem :=
  [.escape ⟨2, false⟩ ⟨11, false⟩, .plus, .escape ⟨12, true⟩ ⟨3, true⟩,
    .kept (ch 'x') (by decide) (by decide)]

theorem mixedItems_noNul : 0 ∉ spell mixedItems := by
  decide

theorem urldecode_formDecodes_mixed :
    ∃ out rest, (∀ rounds, 8 < rounds →
        urldecodeRun ⟨0, fun _ => 0⟩ ⟨text "%2b+%C3x", by decide⟩ rounds =
          .ok out) ∧
      out.buf = .ofCells ([ch '+', ch ' ', 0xc3, ch 'x'] ++ 0 :: rest) ∧
      out.written = 5 := by
  exact (@urldecode_formDecodes ⟨0, fun _ => 0⟩
    ⟨spell mixedItems, mixedItems_noNul⟩ (escaped_spell mixedItems)).2
      mixedItems rfl

end UvgTorrent

import UvgTorrent.Torrent.MagnetRuns

/-!
# Separators in keys and values

The fields of a text are told here by the separators alone, whatever the
scanner makes of them.  The scanner ends a key only at `=`, and takes the
last byte of the text into the field it is in.
-/

namespace UvgTorrent

open CProgram CText CArray MachineInt

variable {Tracker : Type}

/-- The fields between the separators: a key ends at `=` and at `&`, and a
value at `&`. -/
def separatedFields : Bool → List UInt8 → List UInt8 → List (List UInt8)
  | _, read, [] => [read]
  | key, read, byte :: rest =>
      if byte = ch '&' then
        read :: separatedFields true [] rest
      else if key = true ∧ byte = ch '=' then
        read :: separatedFields false [] rest
      else
        separatedFields key (read ++ [byte]) rest

example : separatedFields true [] (text "xt=a=b&dn&") =
    [text "xt", text "a=b", text "dn", []] := by
  decide

/-- Every field of the text has 255 bytes at most. -/
def ShortFields (text : List UInt8) : Prop :=
  ∀ field ∈ separatedFields true [] text, field.length ≤ 255

/-- The text that the scan of a file reads. -/
def fileFields (torrentContent : List UInt8) : MagnetFields :=
  magnetFields (magnetText torrentContent).bytes

/-- The keys and values that the scan of a file makes calls for. -/
def filePasses (trackerNew : CString → Exec Tracker)
    (torrentContent : List UInt8) : List (CString × CString) :=
  let subString := magnetText torrentContent
  scanPasses trackerNew (toInt32 (subString.strlen - 1)) subString.bytes 0
    magnetStart

/-- No separator is passed on, and an `&` at the end of a magnet file makes
no difference. -/
structure SeparatorsStay (trackerNew : CString → Exec Tracker)
    (link : List UInt8) : Prop where
  free : ∀ passed ∈ filePasses trackerNew (magnetPrefix ++ link),
    ch '=' ∉ passed.1.bytes ∧ ch '&' ∉ passed.1.bytes ∧
      ch '&' ∉ passed.2.bytes
  final : ∀ front, link = front ++ [ch '&'] →
    filePasses trackerNew (magnetPrefix ++ link) =
      filePasses trackerNew (magnetPrefix ++ front)

/-- The scanner ends the keys and values that it comes to at their `&`, and
a key without `=` is not cut off. -/
def LeaksNothing (trackerNew : CString → Exec Tracker)
    (fields : MagnetFields) : Prop :=
  (∀ parameter ∈ reached trackerNew hashmapNew fields.parameters,
    ch '&' ∉ parameter.key ∧ ch '&' ∉ parameter.value) ∧
  (callsEnd trackerNew hashmapNew fields.parameters = .ok .success →
    fields.openKey.length ≤ 257)

/-! ## The two ways to tell the fields -/

/-- There is an `&` where the buffer can show it, or the string is short and
has none. -/
def Apart (field : List UInt8) : Prop :=
  ch '&' ∈ field.take 256 ∨ (field.length ≤ 255 ∧ ch '&' ∉ field)

structure FieldsApart (fields : MagnetFields) : Prop where
  parameters : ∀ parameter ∈ fields.parameters,
    ch '=' ∉ parameter.key ∧ Apart parameter.key ∧ Apart parameter.value
  openKey : ch '&' ∈ fields.openKey.take 256 ∨
    fields.openKey.length ≤ 256

/-- What has been read of a field, with short fields from there on. -/
def Reading.Follows (rest : List UInt8) : Reading → Prop
  | .inKey read => ch '=' ∉ read ∧ ∃ tail,
      (∀ field ∈ separatedFields true tail rest, field.length ≤ 255) ∧
      (ch '&' ∈ read.take 256 ∨ (tail = read ∧ ch '&' ∉ read))
  | .inValue key read => ch '=' ∉ key ∧ Apart key ∧ ch '&' ∉ read ∧
      ∀ field ∈ separatedFields false read rest, field.length ≤ 255

section Follows

variable {key read rest : List UInt8} {byte : UInt8}

theorem separatedFields_first (key : Bool) (read rest : List UInt8) :
    ∃ first others, separatedFields key read rest = first :: others ∧
      read <+: first := by
  induction rest generalizing key read with
  | nil =>
      exact ⟨read, [], rfl, List.prefix_refl _⟩
  | cons byte rest inductionHypothesis =>
      rw [separatedFields]
      by_cases isEnd : byte = ch '&'
      · rw [if_pos isEnd]
        exact ⟨read, _, rfl, List.prefix_refl _⟩
      · rw [if_neg isEnd]
        by_cases isMark : key = true ∧ byte = ch '='
        · rw [if_pos isMark]
          exact ⟨read, _, rfl, List.prefix_refl _⟩
        · rw [if_neg isMark]
          rcases inductionHypothesis key (read ++ [byte]) with
            ⟨first, others, fields, front⟩
          exact ⟨first, others, fields,
            (List.prefix_append _ _).trans front⟩

/-- What has been read of a short field is short. -/
theorem length_of_short {isKey : Bool}
    (short : ∀ field ∈ separatedFields isKey read rest, field.length ≤ 255) :
    read.length ≤ 255 := by
  rcases separatedFields_first isKey read rest with
    ⟨first, others, fields, front⟩
  have bound := short first (by rw [fields]; exact List.mem_cons_self)
  exact Nat.le_trans front.length_le bound

theorem mem_take_snoc {separator : UInt8}
    (member : separator ∈ read.take 256) (byte : UInt8) :
    separator ∈ (read ++ [byte]).take 256 := by
  rw [List.take_append]
  exact List.mem_append_left _ member

/-- The last byte of a key, which may be its separator. -/
theorem follows_openKey (follows : (Reading.inKey read).Follows [byte]) :
    ch '&' ∈ (read ++ [byte]).take 256 ∨
      (read ++ [byte]).length ≤ 256 := by
  rcases follows with ⟨_, tail, short, inside | ⟨rfl, _⟩⟩
  · exact .inl (mem_take_snoc inside byte)
  · have bound := length_of_short short
    rw [List.length_append, List.length_singleton]
    exact .inr (Nat.succ_le_succ bound)

/-- The last byte of a value, which may be an `&`. -/
theorem follows_lastValue
    (follows : (Reading.inValue key read).Follows [byte]) :
    Apart (read ++ [byte]) := by
  rcases follows with ⟨_, _, free, short⟩
  have length : (read ++ [byte]).length = read.length + 1 := by
    rw [List.length_append, List.length_singleton]
  by_cases isEnd : byte = ch '&'
  · have bound := length_of_short short
    refine .inl ?_
    rw [List.take_of_length_le (by omega), isEnd]
    exact List.mem_append_right _ List.mem_cons_self
  · have noMark : ¬ (false = true ∧ byte = ch '=') := fun isMark =>
      Bool.false_ne_true isMark.1
    rw [separatedFields, if_neg isEnd, if_neg noMark] at short
    refine .inr ⟨length_of_short short, ?_⟩
    rw [List.mem_append, List.mem_singleton, not_or]
    exact ⟨free, Ne.symm isEnd⟩

theorem separatedFields_keyEnd (tail rest : List UInt8) :
    separatedFields true tail (ch '=' :: rest) =
      tail :: separatedFields false [] rest := by
  have notEnd : ¬ ch '=' = ch '&' := by
    decide
  rw [separatedFields, if_neg notEnd, if_pos ⟨rfl, rfl⟩]

theorem follows_keyEnd
    (follows : (Reading.inKey read).Follows (ch '=' :: rest)) :
    (Reading.inValue read []).Follows rest := by
  rcases follows with ⟨noMark, tail, short, apart⟩
  rw [separatedFields_keyEnd, List.forall_mem_cons] at short
  refine ⟨noMark, ?_, List.not_mem_nil, short.2⟩
  rcases apart with inside | ⟨rfl, free⟩
  · exact .inl inside
  · exact .inr ⟨short.1, free⟩

theorem follows_keyByte (notEnd : byte ≠ ch '=')
    (follows : (Reading.inKey read).Follows (byte :: rest)) :
    (Reading.inKey (read ++ [byte])).Follows rest := by
  rcases follows with ⟨noMark, tail, short, apart⟩
  refine ⟨?_, ?_⟩
  · rw [List.mem_append, List.mem_singleton, not_or]
    exact ⟨noMark, Ne.symm notEnd⟩
  · by_cases isEnd : byte = ch '&'
    · have bound := length_of_short short
      rw [separatedFields, if_pos isEnd, List.forall_mem_cons] at short
      refine ⟨[], short.2, .inl ?_⟩
      rcases apart with inside | ⟨rfl, _⟩
      · exact mem_take_snoc inside byte
      · rw [List.take_of_length_le
          (by rw [List.length_append, List.length_singleton]; omega), isEnd]
        exact List.mem_append_right _ List.mem_cons_self
    · have noKeyEnd : ¬ (true = true ∧ byte = ch '=') := fun isMark =>
        notEnd isMark.2
      rw [separatedFields, if_neg isEnd, if_neg noKeyEnd] at short
      refine ⟨tail ++ [byte], short, ?_⟩
      rcases apart with inside | ⟨rfl, free⟩
      · exact .inl (mem_take_snoc inside byte)
      · refine .inr ⟨rfl, ?_⟩
        rw [List.mem_append, List.mem_singleton, not_or]
        exact ⟨free, Ne.symm isEnd⟩

theorem follows_valueEnd
    (follows : (Reading.inValue key read).Follows (ch '&' :: rest)) :
    Apart read ∧ (Reading.inKey []).Follows rest := by
  rcases follows with ⟨_, _, free, short⟩
  rw [separatedFields, if_pos rfl, List.forall_mem_cons] at short
  exact ⟨.inr ⟨short.1, free⟩, List.not_mem_nil, [], short.2,
    .inr ⟨rfl, List.not_mem_nil⟩⟩

theorem follows_valueByte (notEnd : byte ≠ ch '&')
    (follows : (Reading.inValue key read).Follows (byte :: rest)) :
    (Reading.inValue key (read ++ [byte])).Follows rest := by
  rcases follows with ⟨noMark, apart, free, short⟩
  have noKeyEnd : ¬ (false = true ∧ byte = ch '=') := fun isMark =>
    Bool.false_ne_true isMark.1
  rw [separatedFields, if_neg notEnd, if_neg noKeyEnd] at short
  refine ⟨noMark, apart, ?_, short⟩
  rw [List.mem_append, List.mem_singleton, not_or]
  exact ⟨free, Ne.symm notEnd⟩

end Follows

/-- Where the fields between the separators are short, those of the scanner
are short too or show an `&`. -/
theorem readFields_apart {reading : Reading} {rest : List UInt8}
    (follows : reading.Follows rest) :
    FieldsApart (readFields reading rest) := by
  fun_induction readFields reading rest with
  | case1 reading =>
      exact ⟨fun _ member => absurd member List.not_mem_nil,
        .inr (Nat.zero_le _)⟩
  | case2 read byte =>
      exact ⟨fun _ member => absurd member List.not_mem_nil,
        follows_openKey follows⟩
  | case3 key read byte =>
      refine ⟨?_, .inr (Nat.zero_le _)⟩
      rw [List.forall_mem_singleton]
      exact ⟨follows.1, follows.2.1, follows_lastValue follows⟩
  | case4 read next rest inductionHypothesis =>
      exact inductionHypothesis (follows_keyEnd follows)
  | case5 read byte next rest notEnd inductionHypothesis =>
      exact inductionHypothesis (follows_keyByte notEnd follows)
  | case6 key read next rest inductionHypothesis =>
      have ended := follows_valueEnd follows
      have behind := inductionHypothesis ended.2
      refine ⟨?_, behind.openKey⟩
      rw [MagnetFields.cons, List.forall_mem_cons]
      exact ⟨⟨follows.1, follows.2.1, ended.1⟩, behind.parameters⟩
  | case7 key read byte next rest notEnd inductionHypothesis =>
      exact inductionHypothesis (follows_valueByte notEnd follows)

theorem magnetFields_apart {text : List UInt8} (short : ShortFields text) :
    FieldsApart (magnetFields text) :=
  readFields_apart ⟨List.not_mem_nil, [], short,
    .inr ⟨rfl, List.not_mem_nil⟩⟩

/-! ## Files -/

section Files

variable {trackerNew : CString → Exec Tracker}
  {torrentContent : List UInt8}

theorem file_runs (size : (magnetText torrentContent).strlen ≤ 2 ^ 31) :
    Runs trackerNew
      (toInt32 ((magnetText torrentContent).strlen - 1))
      (magnetText torrentContent).bytes 0 magnetStart
      (fileFields torrentContent) := by
  have last : toInt32 ((magnetText torrentContent).strlen - 1) =
      (magnetText torrentContent).strlen - 1 :=
    toInt32_of_range (by omega) (by omega)
  exact @scanLoop_runs _ _ _ _ _ _ (.inKey []) Filling.nil
    (magnetText torrentContent).noNul (Nat.zero_add _) last size magnetStart

theorem fits_of_leaksNothing
    (apart : FieldsApart (fileFields torrentContent))
    (leaks : LeaksNothing trackerNew (fileFields torrentContent)) :
    FieldsFit trackerNew 257 hashmapNew (fileFields torrentContent) := by
  have bounded : ∀ {field : List UInt8}, Apart field → ch '&' ∉ field →
      field.length ≤ 255 := by
    intro field isApart free
    rcases isApart with inside | short
    · exact absurd (List.mem_of_mem_take inside) free
    · exact short.1
  refine ⟨?_, leaks.2⟩
  intro parameter member
  have free := leaks.1 parameter member
  have parts := apart.parameters parameter (mem_of_reached member)
  exact ⟨bounded parts.2.1 free.1, bounded parts.2.2 free.2⟩

/-- What is passed on when nothing leaks. -/
theorem filePasses_eq
    (size : (magnetText torrentContent).strlen ≤ 2 ^ 31)
    (short : ShortFields (magnetText torrentContent).bytes)
    (leaks : LeaksNothing trackerNew (fileFields torrentContent)) :
    filePasses trackerNew torrentContent =
      (reached trackerNew hashmapNew
        (fileFields torrentContent).parameters).map Parameter.strings :=
  (file_runs size).passes
    (fits_of_leaksNothing (magnetFields_apart short) leaks)

theorem strings_bytes {parameter : Parameter}
    (noNul : 0 ∉ parameter.key ∧ 0 ∉ parameter.value) :
    parameter.strings.1.bytes = parameter.key ∧
      parameter.strings.2.bytes = parameter.value := by
  rw [Parameter.strings, CString.ofBytes_noNul noNul.1,
    CString.ofBytes_noNul noNul.2]
  exact ⟨rfl, rfl⟩

/-- An overlong field is passed on with an `&`. -/
theorem not_free_of_overruns {passed : CString × CString}
    {fields : MagnetFields} (apart : FieldsApart fields)
    (overruns : fields.Overruns trackerNew hashmapNew passed) :
    ch '&' ∈ passed.1.bytes ∨ ch '&' ∈ passed.2.bytes := by
  have shown : ∀ {field : List UInt8}, Apart field → 256 ≤ field.length →
      ch '&' ∈ field.take 256 := by
    intro field isApart long
    rcases isApart with inside | short
    · exact inside
    · omega
  rcases overruns with ⟨parameter, member, ⟨long, found⟩ | ⟨long, found⟩⟩ |
    ⟨_, long, found⟩
  · have parts := apart.parameters parameter (mem_of_reached member)
    rw [found]
    exact .inl (shown parts.2.1 long)
  · have parts := apart.parameters parameter (mem_of_reached member)
    rw [found]
    exact .inr (shown parts.2.2 long)
  · rw [found]
    rcases apart.openKey with inside | short
    · exact .inl inside
    · omega

/-- The keys and values that are passed on hold no separator when the fields
of the file leak none, and only then. -/
theorem filePasses_free_iff
    (size : (magnetText torrentContent).strlen ≤ 2 ^ 31)
    (short : ShortFields (magnetText torrentContent).bytes) :
    (∀ passed ∈ filePasses trackerNew torrentContent,
      ch '=' ∉ passed.1.bytes ∧ ch '&' ∉ passed.1.bytes ∧
        ch '&' ∉ passed.2.bytes) ↔
    LeaksNothing trackerNew (fileFields torrentContent) := by
  have apart : FieldsApart (fileFields torrentContent) :=
    magnetFields_apart short
  have noNul := magnetFields_noNul (magnetText torrentContent).noNul
  constructor
  · intro free
    by_cases fits : FieldsFit trackerNew 257 hashmapNew
        (fileFields torrentContent)
    · have passes : filePasses trackerNew torrentContent = _ :=
        (file_runs size).passes fits
      refine ⟨?_, fits.2⟩
      intro parameter member
      have here := free parameter.strings (by
        rw [passes]
        exact List.mem_map_of_mem member)
      have strings := strings_bytes
        (noNul parameter (mem_of_reached member))
      rw [strings.1, strings.2] at here
      exact here.2
    · rcases ((file_runs size).overruns fits).1 with
        ⟨passed, member, overruns⟩
      have here := free passed member
      rcases not_free_of_overruns apart overruns with inKey | inValue
      · exact absurd inKey here.2.1
      · exact absurd inValue here.2.2
  · intro leaks passed member
    rw [filePasses_eq size short leaks, List.mem_map] at member
    rcases member with ⟨parameter, among, rfl⟩
    have inFields := mem_of_reached among
    have strings := strings_bytes (noNul parameter inFields)
    have free := leaks.1 parameter among
    rw [strings.1, strings.2]
    exact ⟨(apart.parameters parameter inFields).1, free.1, free.2⟩

end Files

/-! ## An `&` at the end -/

section Final

variable {trackerNew : CString → Exec Tracker}

/-- No parameter that is come to holds an `&`. -/
def ParametersFree (trackerNew : CString → Exec Tracker)
    (map : Hashmap (List UInt8)) (parameters : List Parameter) : Prop :=
  ∀ parameter ∈ reached trackerNew map parameters,
    ch '&' ∉ parameter.key ∧ ch '&' ∉ parameter.value

theorem not_parametersFree {map : Hashmap (List UInt8)}
    (key read : List UInt8) (others : List Parameter) :
    ¬ ParametersFree trackerNew map
      (⟨key, read ++ [ch '&']⟩ :: others) := by
  intro free
  have here := (free _ List.mem_cons_self).2
  exact here (List.mem_append_right _ List.mem_cons_self)

/-- An `&` behind a text adds no parameter, unless a value takes it in or
the text had an `&` at its end before. -/
theorem reached_final {reading : Reading} {front : List UInt8}
    {map : Hashmap (List UInt8)}
    (free : ParametersFree trackerNew map
      (readFields reading (front ++ [ch '&'])).parameters)
    (frontFree : ParametersFree trackerNew map
      (readFields reading front).parameters) :
    reached trackerNew map
        (readFields reading (front ++ [ch '&'])).parameters =
      reached trackerNew map (readFields reading front).parameters := by
  fun_induction readFields reading front generalizing map with
  | case1 reading =>
      cases reading with
      | inKey read => rfl
      | inValue key read => exact absurd free (not_parametersFree _ _ _)
  | case2 read byte =>
      rw [List.singleton_append, readFields] at free ⊢
      by_cases isEnd : byte = ch '='
      · rw [if_pos isEnd] at free
        exact absurd free (not_parametersFree _ [] _)
      · rw [if_neg isEnd]
        rfl
  | case3 key read byte =>
      rw [List.singleton_append, readFields] at free
      by_cases isEnd : byte = ch '&'
      · rw [isEnd] at frontFree
        exact absurd frontFree (not_parametersFree _ _ _)
      · rw [if_neg isEnd] at free
        exact absurd free (not_parametersFree _ _ _)
  | case4 read next rest inductionHypothesis =>
      rw [List.cons_append, List.cons_append, readFields, if_pos rfl]
        at free ⊢
      exact inductionHypothesis free frontFree
  | case5 read byte next rest notEnd inductionHypothesis =>
      rw [List.cons_append, List.cons_append, readFields, if_neg notEnd]
        at free ⊢
      exact inductionHypothesis free frontFree
  | case6 key read next rest inductionHypothesis =>
      rw [List.cons_append, List.cons_append, readFields, if_pos rfl]
        at free ⊢
      simp only [ParametersFree, MagnetFields.cons, reached,
        List.forall_mem_cons] at free frontFree ⊢
      cases stored : storable trackerNew map ⟨key, read⟩ with
      | false => rfl
      | true =>
          rw [stored] at free frontFree
          have behind := inductionHypothesis free.2 frontFree.2
          simp only [if_true]
          rw [← behind]
          rfl
  | case7 key read byte next rest notEnd inductionHypothesis =>
      rw [List.cons_append, List.cons_append, readFields, if_neg notEnd]
        at free ⊢
      exact inductionHypothesis free frontFree

theorem separatedFields_final (key : Bool) (read front : List UInt8) :
    separatedFields key read (front ++ [ch '&']) =
      separatedFields key read front ++ [[]] := by
  induction front generalizing key read with
  | nil =>
      simp [separatedFields]
  | cons byte front inductionHypothesis =>
      rw [List.cons_append, separatedFields, separatedFields]
      split
      · rw [inductionHypothesis]
        rfl
      · split
        · rw [inductionHypothesis]
          rfl
        · exact inductionHypothesis key (read ++ [byte])

theorem shortFields_front {front : List UInt8}
    (short : ShortFields (front ++ [ch '&'])) : ShortFields front := by
  intro field member
  apply short
  rw [separatedFields_final]
  exact List.mem_append_left _ member

theorem magnetText_link (link : List UInt8) :
    magnetText (magnetPrefix ++ link) = CString.ofBytes (link ++ [0]) := by
  have behind : (magnetPrefix ++ link ++ [0]).drop 8 = link ++ [0] := by
    rw [List.append_assoc]
    exact List.drop_left' rfl
  rw [magnetText, behind]

/-- An `&` at the end of a file is the last byte of its text, or behind the
end of it. -/
theorem magnetText_final (front : List UInt8) :
    magnetText (magnetPrefix ++ (front ++ [ch '&'])) =
        magnetText (magnetPrefix ++ front) ∨
      (magnetText (magnetPrefix ++ (front ++ [ch '&']))).bytes =
        (magnetText (magnetPrefix ++ front)).bytes ++ [ch '&'] := by
  rw [magnetText_link, magnetText_link]
  by_cases whole : (front.takeWhile (· != 0)).length = front.length
  · refine .inr ?_
    have behind : ∀ tail, (front ++ tail).takeWhile (· != 0) =
        front ++ tail.takeWhile (· != 0) := by
      intro tail
      rw [List.takeWhile_append, if_pos whole]
    have empty : [(0 : UInt8)].takeWhile (· != 0) = [] := rfl
    simp only [CString.ofBytes, List.append_assoc]
    rw [behind, behind, empty, List.append_nil]
    rfl
  · refine .inl (CString.ext ?_)
    simp only [CString.ofBytes, List.append_assoc]
    rw [List.takeWhile_append, if_neg whole, List.takeWhile_append,
      if_neg whole]

/-- A magnet file whose fields are short, and whose text an `int` can count,
keeps its separators when neither its text nor the text without a last `&`
leaks one.  For such texts the condition is exact. -/
theorem scanMagnet_separatorsStay (trackerNew : CString → Exec Tracker)
    {link : List UInt8}
    (short : ShortFields (magnetText (magnetPrefix ++ link)).bytes) :
    ((magnetText (magnetPrefix ++ link)).strlen ≤ 2 ^ 31 ∧
        LeaksNothing trackerNew (fileFields (magnetPrefix ++ link)) ∧
        (∀ front, link = front ++ [ch '&'] →
          LeaksNothing trackerNew (fileFields (magnetPrefix ++ front))) →
      SeparatorsStay trackerNew link) ∧
    ((magnetText (magnetPrefix ++ link)).strlen ≤ 2 ^ 31 →
      SeparatorsStay trackerNew link →
      LeaksNothing trackerNew (fileFields (magnetPrefix ++ link)) ∧
        (∀ front, link = front ++ [ch '&'] →
          LeaksNothing trackerNew
            (fileFields (magnetPrefix ++ front)))) := by
  -- without its last `&` the file is short too
  have frontOk : ∀ front, link = front ++ [ch '&'] →
      (magnetText (magnetPrefix ++ front)).strlen ≤
          (magnetText (magnetPrefix ++ link)).strlen ∧
        ShortFields (magnetText (magnetPrefix ++ front)).bytes := by
    rintro front rfl
    rcases magnetText_final front with same | longer
    · rw [same] at short
      rw [same]
      exact ⟨Nat.le_refl _, short⟩
    · rw [longer] at short
      refine ⟨?_, shortFields_front short⟩
      rw [CString.strlen, CString.strlen, longer, List.length_append]
      exact Nat.le_add_right _ _
  constructor
  · rintro ⟨size, leaks, frontLeaks⟩
    refine ⟨(filePasses_free_iff size short).mpr leaks, ?_⟩
    intro front isFinal
    have ok := frontOk front isFinal
    rw [filePasses_eq size short leaks, filePasses_eq
      (Nat.le_trans ok.1 size) ok.2 (frontLeaks front isFinal)]
    congr 1
    have further := (frontLeaks front isFinal).1
    have here := leaks.1
    subst isFinal
    rcases magnetText_final front with same | longer
    · rw [fileFields, fileFields, same]
    · rw [fileFields, longer] at here
      rw [fileFields, fileFields, longer]
      exact reached_final here further
  · intro size stays
    refine ⟨(filePasses_free_iff size short).mp stays.free, ?_⟩
    intro front isFinal
    have ok := frontOk front isFinal
    refine (filePasses_free_iff (Nat.le_trans ok.1 size) ok.2).mp ?_
    rw [← stays.final front isFinal]
    exact stays.free

/-- `xt=1&` -/
theorem scanMagnet_separatorLeaks :
    ShortFields (magnetText (magnetPrefix ++ text "xt=1&")).bytes ∧
      ¬ SeparatorsStay (fun _ => .ok ()) (text "xt=1&") := by
  have found : magnetText (magnetPrefix ++ text "xt=1&") =
      ⟨text "xt=1&", by decide⟩ := by
    decide
  have fields : fileFields (magnetPrefix ++ text "xt=1&") =
      ⟨[⟨text "xt", text "1" ++ [ch '&']⟩], []⟩ := by
    decide
  have short : ShortFields
      (magnetText (magnetPrefix ++ text "xt=1&")).bytes := by
    rw [found, ShortFields]
    decide
  refine ⟨short, fun stays => ?_⟩
  have leaks := (filePasses_free_iff (by rw [found]; decide) short).mp
    stays.free
  rw [fields] at leaks
  exact not_parametersFree _ _ _ leaks.1

theorem scanMagnet_separatorsStay_two :
    SeparatorsStay (fun _ => .ok ()) (text "xt=1&dn=n") := by
  have found : magnetText (magnetPrefix ++ text "xt=1&dn=n") =
      ⟨text "xt=1&dn=n", by decide⟩ := by
    decide
  have fields : fileFields (magnetPrefix ++ text "xt=1&dn=n") =
      ⟨[⟨text "xt", text "1"⟩, ⟨text "dn", text "n"⟩], []⟩ := by
    decide
  have short : ShortFields
      (magnetText (magnetPrefix ++ text "xt=1&dn=n")).bytes := by
    rw [found, ShortFields]
    decide
  refine (scanMagnet_separatorsStay (fun _ => .ok ()) short).1
    ⟨?_, ⟨?_, ?_⟩, ?_⟩
  · rw [found]
    decide
  · rw [fields]
    intro parameter member
    have among := mem_of_reached member
    rw [List.mem_cons, List.mem_singleton] at among
    rcases among with rfl | rfl
    · decide
    · decide
  · rw [fields]
    exact fun _ => Nat.zero_le _
  · intro front isFinal
    have last := congrArg List.getLast? isFinal
    rw [List.getLast?_concat] at last
    exact absurd last (by decide)

end Final

end UvgTorrent

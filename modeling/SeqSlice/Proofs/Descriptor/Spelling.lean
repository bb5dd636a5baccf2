import SeqSlice.Descriptor.Basic
import SeqSlice.Proofs.Text.Numeral
import SeqSlice.Proofs.Text.Part

/-! A descriptor is read back from each of its spellings: a method may be written with a
dot or as a signature, whatever the result and the arguments of that signature are. -/

set_option autoImplicit false
namespace SeqSlice

namespace MethodName

/-- No part of the name can be taken for a mark, in either spelling. -/
structure Unmarked (method : MethodName) : Prop where
  cls_ne_nil : method.cls.toList ≠ []
  cls_trimmed : Text.IsTrimmed method.cls.toList
  cls_opens : method.cls.toList.head? ≠ some '<'
  cls_colon : ':' ∉ method.cls.toList
  cls_slash : '/' ∉ method.cls.toList
  name_ne_nil : method.name.toList ≠ []
  name_solid : ∀ c ∈ method.name.toList, Text.isBlank c = false
  name_dot : '.' ∉ method.name.toList
  name_paren : '(' ∉ method.name.toList
  name_slash : '/' ∉ method.name.toList

def signature (method : MethodName) (result args : String) : String :=
  "<" ++ method.cls ++ ": " ++ result ++ " " ++ method.name ++ "(" ++ args ++ ")>"

inductive SpelledAs (method : MethodName) : String → Prop where
  | dotted : SpelledAs method method.render
  | signature {result args : String} : result.toList ≠ [] →
      (∀ c ∈ result.toList, Text.isBlank c = false) → '/' ∉ result.toList → '/' ∉ args.toList →
      SpelledAs method (method.signature result args)

variable {method : MethodName}

theorem parseReference_eq_ok {text : List Char} (unmarked : method.Unmarked)
    (trimmed : Text.IsTrimmed text)
    (read : ofReference text = .ok (method.cls.toList, method.name.toList)) :
    parseReference text = .ok method := by
  have named : (method.cls.toList.isEmpty || method.name.toList.isEmpty) = false := by
    simp [unmarked.cls_ne_nil, unmarked.name_ne_nil]
  simp only [parseReference, Text.trim_eq_self trimmed, read, named, String.ofList_toList]
  rfl

/-- With a dot: the name has none, so the last one stands before it. -/
theorem parseReference_render (unmarked : method.Unmarked) :
    parseReference method.render.toList = .ok method := by
  obtain ⟨first, rest, cls⟩ := List.exists_cons_of_ne_nil unmarked.cls_ne_nil
  have text : method.render.toList = method.cls.toList ++ '.' :: method.name.toList := by
    simp [render, String.toList_append]
  have opens : first ≠ '<' := by simpa [cls] using unmarked.cls_opens
  refine parseReference_eq_ok unmarked ⟨?_, ?_⟩ ?_
  · simpa [text, cls] using unmarked.cls_trimmed.1
  · intro c last
    have inName : c ∈ method.name.toList := by
      rw [text, List.getLast?_append_of_ne_nil _ (by simp),
        List.getLast?_cons_of_ne_nil unmarked.name_ne_nil] at last
      exact List.mem_of_getLast? last
    exact unmarked.name_solid c inName
  · have cut := Text.cutLast_append unmarked.name_dot method.cls.toList
    rw [text, ofReference]
    · rw [cut]
    · simp [cls, opens]

theorem ofSignature_append_close (unmarked : method.Unmarked) {result : List Char}
    (nonempty : result ≠ []) (solid : ∀ c ∈ result, Text.isBlank c = false) (args : List Char) :
    ofSignature (method.cls.toList ++ ':' :: ' ' :: (result ++ ' ' :: (method.name.toList ++
      '(' :: args)) ++ ['>']) = .ok (method.cls.toList, method.name.toList) := by
  have word : (method.name.toList ++ '(' :: args).takeWhile (!Text.isBlank ·) =
      method.name.toList ++ '(' :: args.takeWhile (!Text.isBlank ·) := by
    rw [List.takeWhile_append_of_pos fun c inName => by simp [unmarked.name_solid c inName],
      List.takeWhile_cons_of_pos (by decide)]
  have second : (Text.words (' ' :: (result ++ ' ' :: (method.name.toList ++ '(' :: args))))[1]? =
      some (method.name.toList ++ '(' :: args.takeWhile (!Text.isBlank ·)) := by
    have skipped : Text.words (' ' :: (result ++ ' ' :: (method.name.toList ++ '(' :: args))) =
        Text.words [] ++ Text.words (result ++ ' ' :: (method.name.toList ++ '(' :: args)) :=
      Text.words_append_blank (by decide) [] _
    have begins : (method.name.toList ++ '(' :: args).takeWhile (!Text.isBlank ·) ≠ [] := by
      simp [word]
    rw [skipped, Text.words_append_blank (by decide), Text.words_of_solid nonempty solid,
      show Text.words [] = [] from rfl, List.nil_append, List.singleton_append,
      List.getElem?_cons_succ, ← List.head?_eq_getElem?, Text.head?_words begins, word]
  have named : (method.name.toList ++ '(' :: args.takeWhile (!Text.isBlank ·)).takeWhile
      (· != '(') = method.name.toList := by
    rw [List.takeWhile_append_of_pos fun c inName => by
        simpa using fun same : c = '(' => unmarked.name_paren (same ▸ inName),
      List.takeWhile_cons_of_neg (by decide), List.append_nil]
  simp only [ofSignature, List.getLast?_concat, if_true, List.dropLast_concat,
    Text.cutFirst_append unmarked.cls_colon, second, named, Text.trim_eq_self unmarked.cls_trimmed]

theorem toList_signature (result args : String) : (method.signature result args).toList =
    '<' :: (method.cls.toList ++ ':' :: ' ' :: (result.toList ++ ' ' :: (method.name.toList ++
      '(' :: (args.toList ++ [')']))) ++ ['>']) := by
  simp [signature, String.toList_append]

theorem parseReference_spelled (unmarked : method.Unmarked) {text : String}
    (spelled : method.SpelledAs text) : parseReference text.toList = .ok method := by
  cases spelled with
  | dotted => exact parseReference_render unmarked
  | signature nonempty solid _ _ =>
      rw [toList_signature]
      refine parseReference_eq_ok unmarked ⟨?_, ?_⟩ ?_
      · simp [Text.isBlank]
      · rw [← List.cons_append, List.getLast?_concat]
        simp [Text.isBlank]
      · exact ofSignature_append_close unmarked nonempty solid _

theorem SpelledAs.notMem_slash (unmarked : method.Unmarked) {text : String}
    (spelled : method.SpelledAs text) : '/' ∉ text.toList := by
  cases spelled with
  | dotted => simp [render, String.toList_append, unmarked.cls_slash, unmarked.name_slash]
  | signature _ _ inResult inArgs =>
      simp [toList_signature, unmarked.cls_slash, unmarked.name_slash, inResult, inArgs]

end MethodName

namespace CallDescriptor

/-- The line as it is written: nothing where any line is meant. -/
def lineText (line : Option Int) : String :=
  match line with
  | some line => toString line
  | none => ""

variable {line : Option Int}

theorem parseLine_lineText (inRange : ∀ value ∈ line, Text.isWord32 value = true) :
    parseLine (lineText line).toList = .ok line := by
  cases line with
  | none => rfl
  | some value =>
      have solid : ∀ c ∈ (toString value).toList, Text.isBlank c = false := by
        intro c member
        rcases Text.of_mem_toString_int member with rfl | digit
        · decide
        · exact Text.isBlank_of_isDigit digit
      have trimmed : Text.IsTrimmed (toString value).toList :=
        ⟨fun c first => solid c (List.mem_of_head? first),
          fun c last => solid c (List.mem_of_getLast? last)⟩
      have read := Text.word32?_toString (inRange value rfl)
      rw [lineText, parseLine, Text.trim_eq_self trimmed]
      split
      · next none =>
          rw [none] at read
          cases read
      · simp only [read]

theorem notMem_slash_lineText : '/' ∉ (lineText line).toList := by
  cases line with
  | none => simp [lineText]
  | some value =>
      intro member
      rcases Text.of_mem_toString_int member with same | digit
      · cases same
      · cases digit

theorem fields_joined {first second : String} (one : '/' ∉ first.toList) (two : '/' ∉ second.toList)
    (inRange : ∀ value ∈ line, Text.isWord32 value = true) :
    fields (first ++ "/" ++ second ++ "/" ++ lineText line).toList =
      .ok (first.toList, second.toList, line) := by
  have parts : (first ++ "/" ++ second ++ "/" ++ lineText line).toList.splitOn '/' =
      [first.toList, second.toList, (lineText line).toList] := by
    simp only [String.toList_append, List.append_assoc,
      show "/".toList = ['/'] from rfl, List.cons_append, List.nil_append]
    rw [List.splitOn_append_cons_self_of_not_mem one, List.splitOn_append_cons_self_of_not_mem two,
      List.splitOn_eq_singleton notMem_slash_lineText]
  rw [fields, parts]
  simp [parseLine_lineText inRange, bind, Except.bind, pure, Except.pure]

/-- A descriptor is read back from how it is printed, and from each other spelling of its
methods. -/
theorem parse_spelled {descriptor : CallDescriptor} (caller : descriptor.caller.Unmarked)
    (callee : descriptor.callee.Unmarked)
    (inRange : ∀ line ∈ descriptor.line, Text.isWord32 line = true) :
    parse descriptor.render.toList = .ok descriptor ∧
      ∀ first second, descriptor.caller.SpelledAs first → descriptor.callee.SpelledAs second →
        parse (first ++ "/" ++ second ++ "/" ++ lineText descriptor.line).toList = .ok descriptor := by
  have spelled (first second : String) (one : descriptor.caller.SpelledAs first)
      (two : descriptor.callee.SpelledAs second) :
      parse (first ++ "/" ++ second ++ "/" ++ lineText descriptor.line).toList = .ok descriptor := by
    rw [parse, fields_joined (one.notMem_slash caller) (two.notMem_slash callee) inRange]
    simp only [MethodName.parseReference_spelled caller one,
      MethodName.parseReference_spelled callee two]
    rfl
  exact ⟨spelled _ _ .dotted .dotted, spelled⟩

end CallDescriptor

/-- A blank inside a class and a colon inside a name, on the least line. -/
def readerCall : CallDescriptor :=
  ⟨⟨"app.Main class", "run:all"⟩, ⟨"java.io.FileReader", "<init>"⟩, some (-2147483648)⟩

def readerSignature : String := "<java.io.FileReader: void <init>(Map<K, V>)>"

theorem readerCall_parsed : readerCall.caller.Unmarked ∧ readerCall.callee.Unmarked ∧
    (∀ line ∈ readerCall.line, Text.isWord32 line = true) ∧
    readerCall.callee.SpelledAs readerSignature ∧
    CallDescriptor.parse readerCall.render.toList = .ok readerCall ∧
    CallDescriptor.parse ("app.Main class.run:all/" ++ readerSignature ++ "/-2147483648").toList =
      .ok readerCall := by
  have caller : readerCall.caller.Unmarked := by
    constructor <;> simp [readerCall, Text.IsTrimmed, Text.isBlank]
  have callee : readerCall.callee.Unmarked := by
    constructor <;> simp [readerCall, Text.IsTrimmed, Text.isBlank]
  have inRange : ∀ line ∈ readerCall.line, Text.isWord32 line = true := by decide
  have signature : readerSignature = readerCall.callee.signature "void" "Map<K, V>" := by
    decide +kernel
  have spelled : readerCall.callee.SpelledAs readerSignature := by
    rw [signature]
    exact .signature (by simp) (by simp [Text.isBlank]) (by simp) (by simp)
  have joined : "app.Main class.run:all/" ++ readerSignature ++ "/-2147483648" =
      readerCall.caller.render ++ "/" ++ readerSignature ++ "/" ++
        CallDescriptor.lineText readerCall.line := by decide +kernel
  obtain ⟨printed, others⟩ := CallDescriptor.parse_spelled caller callee inRange
  refine ⟨caller, callee, inRange, spelled, printed, ?_⟩
  rw [joined]
  exact others _ _ .dotted spelled

end SeqSlice

import DemoStorage.BinlogOutcomes

/-!
# Reading the binlog back

The text is split at its newlines and each line read as a decimal time, an operation and
the name that fills the rest of the line. A name without a newline is read back whatever
else it holds.
-/

namespace DemoStorage.BinlogText
open ByteStrings DaemonState BinlogWriting

def newline : Byte := 10

/-- Pieces of a text between its newlines; a text that ends in a newline has none behind it. -/
def binlogLines (text : Bytes) : List Bytes :=
  let pieces := text.splitOn newline
  if pieces.getLast? = some [] then pieces.dropLast else pieces

/-- A line read as time, operation and name. -/
def readLine (line : Bytes) : Option LogRecord :=
  let negative := line.head? = some 45
  let digits := if negative then line.tail else line
  match leadingDigits 10 digits, afterDigits 10 digits with
  | d :: ds, 32 :: op :: 32 :: filename =>
    let n : ℤ := digitsToNat 10 (d :: ds)
    some ⟨if negative then -n else n, op, filename⟩
  | _, _ => none

/-- The records of a binlog, with the lines that are none. -/
def decodeBinlog (text : Bytes) : List (Option LogRecord) := (binlogLines text).map readLine

/-- The text of a list of records. -/
def encodeBinlog (rs : List LogRecord) : Bytes := rs.flatMap recordText

/-- A record that is one line. -/
def OneLine (r : LogRecord) : Prop := r.op ≠ newline ∧ newline ∉ r.filename

section Lines

@[simp] theorem binlogLines_nil : binlogLines [] = [] := by decide

theorem binlogLines_append {a : Bytes} (h : newline ∉ a) (b : Bytes) :
    binlogLines (a ++ newline :: b) = a :: binlogLines b := by
  have hsplit : (a ++ newline :: b).splitOn newline = a :: b.splitOn newline := by
    rw [List.splitOn_append_cons_self, List.splitOn_eq_singleton h, List.singleton_append]
  have hne : b.splitOn newline ≠ [] := List.splitOn_ne_nil newline b
  obtain ⟨p, ps, hp⟩ := List.exists_cons_of_ne_nil hne
  simp only [binlogLines, hsplit, hp, List.getLast?_cons_cons, List.dropLast_cons_cons]
  split_ifs <;> rfl

theorem line_notMem {a b : Bytes} (ha : newline ∉ a) (hb : newline ∉ b) : newline ∉ a ++ b := by
  simp [ha, hb]

end Lines

section Records

private theorem digitChar_plain (d : Fin 10) : digitChar d.val ≠ newline ∧ digitChar d.val ≠ 45 := by
  revert d
  decide

theorem newline_notMem_numeral (n : ℕ) : newline ∉ numeral 10 n := by
  rw [numeral_eq_map]
  intro h
  obtain ⟨d, hd, he⟩ := List.mem_map.mp h
  exact (digitChar_plain ⟨d, numeralDigits_lt (by decide) d hd⟩).1 he

theorem newline_notMem_decimal (n : ℤ) : newline ∉ decimal n := by
  unfold decimal
  split
  · exact fun h => (List.mem_cons.mp h).elim (by decide) (newline_notMem_numeral _)
  · exact newline_notMem_numeral _

theorem numeral_head (n : ℕ) (rest : Bytes) : (numeral 10 n ++ rest).head? ≠ some 45 := by
  rw [numeral_eq_map]
  obtain ⟨d, ds, hd⟩ := List.exists_cons_of_ne_nil (numeralDigits_ne_nil 10 n)
  have hlt : d < 10 := numeralDigits_lt (by decide) d (hd ▸ List.mem_cons_self)
  rw [hd]
  simpa using (digitChar_plain ⟨d, hlt⟩).2

/-- The line of a record, without its newline. -/
def recordLine (r : LogRecord) : Bytes := decimal r.time ++ 32 :: r.op :: 32 :: r.filename

theorem recordText_eq (r : LogRecord) : recordText r = recordLine r ++ [newline] := by
  simp [recordText, recordLine, newline]

theorem newline_notMem_recordLine {r : LogRecord} (h : OneLine r) : newline ∉ recordLine r := by
  refine line_notMem (newline_notMem_decimal _) ?_
  have hop : newline ≠ r.op := h.1.symm
  have hspace : newline ≠ 32 := by decide
  simp [hop, h.2, hspace]

private theorem read_digits (n : ℕ) (op : Byte) (filename : Bytes) :
    ∃ d ds, leadingDigits 10 (numeral 10 n ++ 32 :: op :: 32 :: filename) = d :: ds ∧
      digitsToNat 10 (d :: ds) = n ∧
      afterDigits 10 (numeral 10 n ++ 32 :: op :: 32 :: filename) = 32 :: op :: 32 :: filename := by
  have hspace : digitValue 10 32 = none := by decide
  have h1 : 1 < 10 := by decide
  have h16 : 10 ≤ 16 := by decide
  have hafter := afterDigits_numeral h1 h16 n (32 :: op :: 32 :: filename)
  have hlead := leadingDigits_map_append h16 (numeralDigits_lt (n := n) h1)
    (32 :: op :: 32 :: filename)
  rw [← numeral_eq_map] at hlead
  simp only [afterDigits, leadingDigits, hspace, List.append_nil] at hafter hlead
  obtain ⟨d, ds, hd⟩ := List.exists_cons_of_ne_nil (numeralDigits_ne_nil 10 n)
  exact ⟨d, ds, hlead.trans hd, hd ▸ digitsToNat_numeralDigits n, hafter⟩

/-- Reading the line of a record gives the record. -/
theorem readLine_recordLine (r : LogRecord) : readLine (recordLine r) = some r := by
  obtain ⟨time, op, filename⟩ := r
  obtain ⟨d, ds, hlead, hn, hafter⟩ := read_digits time.natAbs op filename
  by_cases h : time < 0
  · have hline : recordLine ⟨time, op, filename⟩ =
        45 :: (numeral 10 time.natAbs ++ 32 :: op :: 32 :: filename) := by
      simp [recordLine, decimal, h]
    have htime : -(time.natAbs : ℤ) = time := by omega
    simp only [readLine, hline, List.head?_cons, List.tail_cons, hlead, hafter, hn, htime, if_true]
  · have hline : recordLine ⟨time, op, filename⟩ =
        numeral 10 time.natAbs ++ 32 :: op :: 32 :: filename := by
      simp [recordLine, decimal, h]
    have htime : (time.natAbs : ℤ) = time := by omega
    simp only [readLine, hline, numeral_head, hlead, hafter, hn, htime, if_false]

theorem encodeBinlog_append (rs : List LogRecord) (r : LogRecord) :
    encodeBinlog (rs ++ [r]) = encodeBinlog rs ++ recordText r := by
  simp [encodeBinlog]

/-- The binlog is uniquely decodable as long as every record is one line. -/
theorem decodeBinlog_encode {rs : List LogRecord} (h : ∀ r ∈ rs, OneLine r) :
    decodeBinlog (encodeBinlog rs) = rs.map some := by
  induction rs with
  | nil => rfl
  | cons r rs ih =>
    have hr := h r List.mem_cons_self
    have hlines : binlogLines (encodeBinlog (r :: rs)) =
        recordLine r :: binlogLines (encodeBinlog rs) := by
      rw [← binlogLines_append (newline_notMem_recordLine hr)]
      simp [encodeBinlog, recordText_eq]
    rw [decodeBinlog, hlines, List.map_cons, readLine_recordLine, List.map_cons,
      ← ih fun r hr => h r (List.mem_cons_of_mem _ hr)]
    rfl

end Records

end DemoStorage.BinlogText

import BlockScript.Reading.Outcome

/-!
# Logs

A log keeps complaints with the numbers of their lines, in the order in which they were made. It is read
by line.
-/

namespace BlockScript

/-- Complaints, each with the number of its line, in the order in which they were made. -/
abbrev Log := List (Int × Complaint)

namespace Log

/-- The numbers of the lines that there are complaints about, in order. -/
def lines (log : Log) : List Int := (log.map (·.1)).eraseDups.mergeSort fun a b => decide (a ≤ b)

/-- The complaints about a line. -/
def about (log : Log) (line : Int) : List Complaint :=
  (log.filter fun e => e.1 == line).map (·.2)

/-- The complaints by line, in the order of the lines. -/
def byLine (log : Log) : List (Int × List Complaint) :=
  log.lines.map fun line => (line, log.about line)

end Log

end BlockScript

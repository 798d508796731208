import Mathlib.Data.List.Induction
import Quarterly.Proofs.Keyed
import Quarterly.Proofs.Outcome
import Quarterly.Proofs.Quarter.Order
import Quarterly.RecordFile
import Quarterly.Signal

/-!
# The companies of some records

Records are grouped by going through them once and adding each to its company. What comes out has
an entry for each company, in the order of their first records, with the records of the company in
the order in which they come (`byTicker_eq`). The data that stand for the records of one company
are checked to those records (`checkRecords_ofTicker`).
-/

namespace Quarterly

namespace Record

/-- The companies of some records, in the order of their first records. -/
def tickers (records : List Record) : List String := Quarter.distinct (records.map (·.ticker))

/-- The records of one company. -/
def ofTicker (ticker : String) (records : List Record) : List Record :=
  records.filter fun record => record.ticker == ticker

variable {ticker : String} {records : List Record}

theorem mem_tickers : ticker ∈ tickers records ↔ ofTicker ticker records ≠ [] := by
  unfold tickers ofTicker
  rw [Quarter.mem_distinct, List.mem_map]
  simp

theorem nodup_tickers : (tickers records).Nodup := Quarter.nodup_distinct

theorem byTicker_concat (record : Record) : byTicker (records ++ [record]) =
    (byTicker records).put record.ticker
      (((byTicker records).get? record.ticker).getD [] ++ [record]) := by
  unfold byTicker
  rw [List.foldl_append]
  rfl

theorem byTicker_eq :
    byTicker records = (tickers records).map fun ticker => (ticker, ofTicker ticker records) := by
  induction records using List.reverseRecOn with
  | nil => rfl
  | append_singleton before record ih =>
    have known :
        ((byTicker before).get? record.ticker).getD [] = ofTicker record.ticker before := by
      rw [ih, Keyed.get?_map]
      by_cases inside : record.ticker ∈ tickers before
      · rw [if_pos inside, Option.getD_some]
      · rw [if_neg inside, Option.getD_none]
        exact (Classical.not_not.mp (mt mem_tickers.mpr inside)).symm
    have names : tickers (before ++ [record]) =
        if record.ticker ∈ tickers before then tickers before
        else tickers before ++ [record.ticker] := by
      unfold tickers
      rw [List.map_append, List.map_singleton, Quarter.distinct_concat]
      simp only [Quarter.mem_distinct]
    rw [byTicker_concat, known, ih, Keyed.put_map nodup_tickers, ← names]
    refine List.map_congr_left fun ticker _ => Prod.ext rfl ?_
    unfold ofTicker
    rw [List.filter_append]
    by_cases same : ticker = record.ticker
    · simp [same]
    · simp [same, Ne.symm same]

theorem keys_byTicker : (byTicker records).keys = tickers records := by
  rw [byTicker_eq]
  unfold Keyed.keys
  rw [List.map_map]
  exact List.map_id _

end Record

/-! ### Data of companies -/

/-- The data that stand for records of one company. -/
def Datum.ofTicker (ticker : String) (data : List Datum) : List Datum :=
  data.filter fun d => (Record.check d).toOption.any fun record => record.ticker == ticker

theorem checkRecords_cons {d : Datum} {rest : List Datum} {record : Record}
    (checked : Record.check d = .ok record) :
    checkRecords (d :: rest) = (checkRecords rest).map (record :: ·) := by
  unfold checkRecords
  rw [List.mapM_cons, checked]
  rfl

theorem check_of_checkRecords {d : Datum} {rest : List Datum} {records : List Record}
    (h : checkRecords (d :: rest) = .ok records) : ∃ record, Record.check d = .ok record := by
  unfold checkRecords at h
  rw [List.mapM_cons] at h
  obtain ⟨record, checked, -⟩ := Except.bind_eq_ok.mp h
  exact ⟨record, Except.mapError_eq_ok.mp checked⟩

theorem checkRecords_ofTicker {data : List Datum} {records : List Record} (ticker : String)
    (h : checkRecords data = .ok records) :
    checkRecords (Datum.ofTicker ticker data) = .ok (Record.ofTicker ticker records) := by
  induction data generalizing records with
  | nil =>
    cases h
    rfl
  | cons d rest ih =>
    obtain ⟨record, checked⟩ := check_of_checkRecords h
    rw [checkRecords_cons checked] at h
    obtain ⟨others, ho, rfl⟩ := Except.map_eq_ok.mp h
    have same : (Record.check d).toOption.any (fun record => record.ticker == ticker) =
        (record.ticker == ticker) := by rw [checked]; rfl
    unfold Datum.ofTicker Record.ofTicker
    rw [List.filter_cons, List.filter_cons, same]
    split
    · rw [checkRecords_cons checked]
      exact congrArg (Except.map (record :: ·)) (ih ho)
    · exact ih ho

end Quarterly

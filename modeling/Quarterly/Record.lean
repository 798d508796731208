import Quarterly.Metric.Reading
import Quarterly.Schema.Moment

/-!
# Records

One stored value of one metric of one company in one quarter. Records come as mappings with keys in
either of two spellings; a field that is there in both is taken from the joined one.
-/

namespace Quarterly

open Schema

structure Record where
  ticker : String
  companyId : Option String := none
  quarter : String
  metricName : String
  metricValue : Option Metric.Reading := none
  scrapeTimestamp : Option Moment := none

namespace Record

/-- The name of the model in reports. -/
def modelName : String := "QuarterlyRecord"

/-- The key under which a field is found, the joined one first, and its entry. -/
def aliased (entries : Keyed Datum) (joined plain : String) : Option (String × Datum) :=
  match entries.get? joined, entries.get? plain with
  | some d, _ => some (joined, d)
  | none, some d => some (plain, d)
  | none, none => none

/-- A text that is not blank. -/
def notBlank : Check String := fun d => do
  let s ← Check.string d
  if Text.isAllBlank s then Checked.fail (.valueError "must not be blank") else pure s

/-- A metric value: a number, a text, or a truth value taken as a double. -/
def reading : Check Metric.Reading := fun d =>
  match Metric.Reading.ofDatum? d with
  | some r => pure r
  | none => throw [⟨["float"], .floatType⟩, ⟨["int"], .intType⟩, ⟨["str"], .stringType⟩]

/-- A company is identified by a text; anything else is taken as plain text. -/
def identifier : Check String := fun d => pure d.plain

/-- A field under either of its keys that has to be there. -/
def needed {α : Type} (entries : Keyed Datum) (joined plain : String) (check : Check α) :
    Checked α :=
  match aliased entries joined plain with
  | some (key, d) => Checked.under key (check d)
  | none => Checked.under joined (Checked.fail .missing)

/-- A field under either of its keys that may be null or left out. -/
def possible {α : Type} (entries : Keyed Datum) (joined plain : String) (check : Check α) :
    Checked (Option α) :=
  match aliased entries joined plain with
  | some (key, d) => Checked.under key (Check.optional check d)
  | none => pure none

/-- A record given as data. Keys that belong to no field are passed over. -/
def check : Check Record := fun d => do
  let entries ← Check.model modelName d
  let ticker := required entries "ticker" Check.string
  let companyId := possible entries "companyId" "company_id" identifier
  let quarter := required entries "quarter" notBlank
  let metricName := needed entries "metricName" "metric_name" notBlank
  let metricValue := possible entries "metricValue" "metric_value" reading
  let scrapeTimestamp := possible entries "scrapeTimestamp" "scrape_timestamp" Check.moment
  let (ticker, companyId, quarter, metricName, metricValue, scrapeTimestamp) ←
    ticker.both (companyId.both (quarter.both (metricName.both
      (metricValue.both scrapeTimestamp))))
  return { ticker, companyId, quarter, metricName, metricValue, scrapeTimestamp }

end Record

end Quarterly

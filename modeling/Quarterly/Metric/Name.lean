import Quarterly.Text.Blank
import Quarterly.Text.Lowercase

/-!
# Metric names

Metrics are found under any spelling: a key keeps of a name only what does not depend on case,
blanks, parentheses and percent signs. Names also tell two things about their values: whether they
are stored as percentages, and whether the metric is an operating margin.
-/

namespace Quarterly.Metric

/-- The key of a name: lower case, without percent signs, parentheses and blanks. -/
def normalizeKey (name : String) : String :=
  String.ofList <| (Text.lower name).toList.filter fun c =>
    c != '(' && c != ')' && c != '%' && !Text.isBlank c

/-- Whether some characters stand in a row somewhere inside others. -/
def hasInfix (part : List Char) : List Char → Bool
  | [] => part.isEmpty
  | c :: rest => part.isPrefixOf (c :: rest) || hasInfix part rest

/-- Whether a text has another one somewhere inside. -/
def containsText (s part : String) : Bool := hasInfix part.toList s.toList

/-- The words in a name that mark percentages, in this spelling only. -/
def percentageMarkers : List String := ["%", "Growth", "YoY", "QoQ"]

/-- The words in a name that mark percentages in any case. -/
def marginMarkers : List String := ["opm", "margin"]

/-- Whether the values of a metric are stored as percentages. -/
def isPercentage (name : String) : Bool :=
  percentageMarkers.any (containsText name) || marginMarkers.any (containsText (Text.lower name))

/-- The keys in which operating margins are recognised. -/
def operatingMarginMarkers : List String := ["opm", "operatingprofitmargin", "operatingmargin"]

/-- Whether a metric is an operating margin. -/
def isOperatingMargin (name : String) : Bool :=
  operatingMarginMarkers.any (containsText (normalizeKey name))

/-- The names under which a financing margin is looked up in place of an operating margin, in
order. -/
def financingMarginNames : List String := [
  "Financing Margin %", "Financing Margin", "financingmargin", "financing_margin",
  "FinancingMargin", "financing margin %", "financing margin"]

end Quarterly.Metric

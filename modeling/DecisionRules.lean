import DecisionRules.Reading.Membership
import DecisionRules.Proofs.Building.TestedNumbers
import DecisionRules.Proofs.Serial.Agreement
import DecisionRules.Proofs.Serial.Normal
import DecisionRules.Proofs.Reading.Items
import DecisionRules.Proofs.Reading.Place
import DecisionRules.Proofs.Reading.PredicateList
import DecisionRules.Proofs.Reading.Failure
import DecisionRules.Proofs.Reading.ViablePrefix
import DecisionRules.Proofs.Building.FirstFault
import DecisionRules.Proofs.Patterns.Partition
import DecisionRules.Proofs.Serial.Forgery
import DecisionRules.Proofs.Reading.Comparison
import DecisionRules.Proofs.Reading.Apart
import DecisionRules.Proofs.Reading.Symbols
import DecisionRules.Proofs.Reading.ValuePlace
import DecisionRules.Proofs.Reading.IntegerLiteral
import DecisionRules.Proofs.Reading.Inset
import DecisionRules.Proofs.Reading.QuotedText
import DecisionRules.Proofs.Building.NodeKind
import DecisionRules.Proofs.Building.Starting
import DecisionRules.Proofs.Patterns.Meaning

import FastPath.Proofs.Catalogue.Allocations
import FastPath.Proofs.Execution.Bounds
import FastPath.Proofs.Graph.Finishing
import FastPath.Proofs.Heap.Numbering
import FastPath.Proofs.Execution.Naming
import FastPath.Proofs.Registry.Correctness
import FastPath.Proofs.Property.CacheHistory
import FastPath.Proofs.InlineCache.Summary
import FastPath.Proofs.Property.SlotOffset
import FastPath.Proofs.Property.SlotHistory
import FastPath.Proofs.Property.Atomicity
import FastPath.Proofs.Property.Inheritance
import FastPath.Proofs.Property.Confinement
import FastPath.Proofs.Property.Getters
import FastPath.Session
import FastPath.Settings
import FastPath.Text.Quoted
import FastPath.Proofs.Registry.Recursion
import FastPath.Proofs.Registry.Order
import FastPath.Proofs.Registry.Accounts
import FastPath.Proofs.Execution.Descent
import FastPath.Proofs.Registry.History
import FastPath.Proofs.Catalogue.Interleaving
import FastPath.Proofs.Catalogue.Numbers
import FastPath.Proofs.Execution.Independence
import FastPath.Proofs.Registry.Balance
import FastPath.Proofs.Catalogue.FieldSizes
import FastPath.Proofs.Catalogue.Operators
import FastPath.Proofs.Catalogue.Reassignment
import FastPath.Proofs.Catalogue.Effects
import FastPath.Proofs.Heap.Region
